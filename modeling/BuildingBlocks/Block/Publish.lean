import BuildingBlocks.Busd.Client
import BuildingBlocks.Json.Agree

/-!
# BuildingBlocks.Block.Publish

The states a building block publishes, `bb_block_publish_state` of `libbb/bb_block.c`.

* `stateLine` is the line sent: a topic and a JSON object, each printed into a buffer.
* `heard_stateLine` — a subscriber hears the state, for an identifier that fits the topic.
-/

namespace BuildingBlocks
namespace Lifecycle

open Lib

abbrev Bytes := List UInt8

/-! ## The code -/

/-- `bb_state_t`. -/
inductive BlockState where
  | init
  | ready
  | running
  | stopping
  | stopped
  | error
deriving DecidableEq, Repr

/-- `state_str`. -/
def BlockState.text : BlockState → Bytes
  | .init => ascii "init"
  | .ready => ascii "ready"
  | .running => ascii "running"
  | .stopping => ascii "stopping"
  | .stopped => ascii "stopped"
  | .error => ascii "error"

/-- `snprintf(topic, sizeof(topic), "/dev/%s/state", block->id)`. -/
def stateTopic (id : Bytes) : Bytes := (ascii "/dev/" ++ id ++ ascii "/state").take 127

/-- The members of the payload; `(int)time(NULL)` wraps around. -/
def stateEntries (id : Bytes) (time : Int) (state : BlockState) : List (Bytes × Json.Value) :=
  [(ascii "block", .str id), (ascii "ts", .int (time.bmod (2 ^ 32))),
    (ascii "status", .str state.text)]

/-- `mem` is what the stack holds before. -/
def statePayload (id : Bytes) (mem : Nat → UInt8) (time : Int) (state : BlockState) : Bytes :=
  Json.written mem 4096 (stateEntries id time state)

def stateLine (id : Bytes) (mem : Nat → UInt8) (time : Int) (state : BlockState) : Bytes :=
  Busd.busPublish (stateTopic id) (statePayload id mem time state)

/-! ## A subscriber -/

/-- The topics and the statuses that a client reads in what is sent. -/
def heard (sent : Bytes) : List (Bytes × Option Bytes) :=
  (Busd.decode sent).map (fun call => (call.1, Json.getString call.2 (ascii "status")))

/-- An identifier that fits the topic, is one word in it, and is not taken for a key. -/
structure IsId (id : Bytes) : Prop where
  short : id.length ≤ 116
  word : id.all (fun b => !isSpace b && Json.isPlain b) = true
  notStatus : id ≠ ascii "status"

instance (id : Bytes) : Decidable (IsId id) :=
  decidable_of_iff
    (id.length ≤ 116 ∧ id.all (fun b => !isSpace b && Json.isPlain b) = true ∧ id ≠ ascii "status")
    ⟨fun h => ⟨h.1, h.2.1, h.2.2⟩, fun h => ⟨h.short, h.word, h.notStatus⟩⟩

section Heard

variable {id : Bytes} {mem : Nat → UInt8} {time : Int} {state : BlockState}

theorem length_text_le (state : BlockState) : state.text.length ≤ 8 := by
  cases state <;> decide

theorem plain_text (state : BlockState) : state.text.all Json.isPlain = true := by
  cases state <;> decide

theorem bmod_range (time : Int) :
    -0x80000000 ≤ time.bmod (2 ^ 32) ∧ time.bmod (2 ^ 32) < 0x80000000 := by
  have hlo := Int.le_bmod (x := time) (m := 2 ^ 32) (by decide)
  have hhi := Int.bmod_lt (x := time) (m := 2 ^ 32) (by decide)
  omega

theorem IsId.byte (h : IsId id) {b : UInt8} (hb : b ∈ id) :
    isSpace b = false ∧ Json.isPlain b = true := by
  have hword := List.all_eq_true.mp h.word b hb
  rw [Bool.and_eq_true, Bool.not_eq_true'] at hword
  exact hword

theorem IsId.plain (h : IsId id) : id.all Json.isPlain = true :=
  List.all_eq_true.mpr fun _ hb => (h.byte hb).2

theorem IsId.ok (h : IsId id) (time : Int) (state : BlockState) :
    ∀ e ∈ stateEntries id time state, Json.Ok e := by
  have hshort := h.short
  have hstate := length_text_le state
  simp only [stateEntries, List.forall_mem_cons, List.not_mem_nil, false_implies, implies_true,
    and_true]
  refine ⟨⟨?_, show id.length < 256 by omega, h.plain⟩, ⟨?_, bmod_range time⟩,
    ⟨?_, show state.text.length < 256 by omega, plain_text state⟩⟩
  · exact show Json.IsKey (ascii "block") by decide
  · exact show Json.IsKey (ascii "ts") by decide
  · exact show Json.IsKey (ascii "status") by decide

/-- The object, and that it fits both buffers. -/
theorem IsId.payload_eq (h : IsId id) :
    statePayload id mem time state = Json.document (stateEntries id time state) ∧
      (statePayload id mem time state).length ≤ 4000 := by
  have hok := h.ok time state
  have hshort := h.short
  have hstate := length_text_le state
  have hts := length_intText_le (bmod_range time).1 (bmod_range time).2
  have hkeys : (ascii "block").length = 5 ∧ (ascii "ts").length = 2 ∧
      (ascii "status").length = 6 := by decide
  have hlen : (Json.document (stateEntries id time state)).length ≤ 4000 := by
    rw [Json.length_document (fun e he => (hok e he).short) (List.cons_ne_nil _ _)]
    simp only [stateEntries, Json.entriesLength, Json.valueText, hkeys, List.length_append,
      List.length_cons, List.length_nil]
    omega
  have heq : statePayload id mem time state = Json.document (stateEntries id time state) :=
    Json.write_document mem (by decide) (by omega)
      (Json.zero_not_mem_document (fun e he => (hok e he).zero_not_mem))
  exact ⟨heq, heq ▸ hlen⟩

theorem IsId.status (h : IsId id) :
    Json.getString (statePayload id mem time state) (ascii "status") = some state.text := by
  have hid : Json.Value.str id ≠ .str (ascii "status") :=
    fun he => h.notStatus (Json.Value.str.inj he)
  have hts : Json.Value.int (time.bmod (2 ^ 32)) ≠ .str (ascii "status") := Json.Value.noConfusion
  rw [h.payload_eq.1, Json.getString_document (by decide) (h.ok time state), stateEntries,
    Json.firstToken, if_neg (by decide), if_neg hid, Json.firstToken, if_neg (by decide),
    if_neg hts, Json.firstToken, if_pos rfl]

theorem IsId.payload_line (h : IsId id) :
    0 ∉ statePayload id mem time state ∧ 0x0a ∉ statePayload id mem time state := by
  have hok := h.ok time state
  have hid : (0x0a : UInt8) ∉ id := fun hmem => absurd (h.byte hmem).1 (by decide)
  have htext : (0x0a : UInt8) ∉ state.text := by
    cases state <;> decide
  have hts := notMem_intText (b := 0x0a) rfl (by decide) (time.bmod (2 ^ 32))
  rw [h.payload_eq.1]
  refine ⟨Json.zero_not_mem_document (fun e he => (hok e he).zero_not_mem),
    Json.not_mem_document (by decide) ?_⟩
  have hquoted : ∀ val : Bytes, (0x0a : UInt8) ∉ val → 0x0a ∉ Json.valueText (.str val) := by
    intro val hval
    simp [Json.valueText, Json.quote, hval]
  simp only [stateEntries, List.forall_mem_cons, List.not_mem_nil, false_implies, implies_true,
    and_true]
  refine ⟨⟨?_, hquoted id hid⟩, ⟨?_, hts⟩, ⟨?_, hquoted state.text htext⟩⟩
  · exact show (0x0a : UInt8) ∉ ascii "block" by decide
  · exact show (0x0a : UInt8) ∉ ascii "ts" by decide
  · exact show (0x0a : UInt8) ∉ ascii "status" by decide

/-- **A subscriber hears the state that was published.** -/
theorem heard_stateLine (h : IsId id) :
    heard (stateLine id mem time state) =
      [(ascii "/dev/" ++ id ++ ascii "/state", some state.text)] := by
  have hshort := h.short
  have hends : (ascii "/dev/").length = 5 ∧ (ascii "/state").length = 6 ∧
      (ascii "PUB ").length = 4 := by decide
  have htopic : stateTopic id = ascii "/dev/" ++ id ++ ascii "/state" := by
    refine List.take_of_length_le ?_
    simp only [List.length_append, hends]
    omega
  have hword : ∀ b ∈ stateTopic id, isSpace b = false ∧ b ≠ 0 := by
    intro b hb
    rw [htopic, List.mem_append, List.mem_append] at hb
    rcases hb with (hb | hb) | hb
    · exact (show ∀ b ∈ ascii "/dev/", isSpace b = false ∧ b ≠ 0 by decide) b hb
    · obtain ⟨hspace, hplain⟩ := h.byte hb
      refine ⟨hspace, ?_⟩
      rintro rfl
      exact absurd hplain (by decide)
    · exact (show ∀ b ∈ ascii "/state", isSpace b = false ∧ b ≠ 0 by decide) b hb
  have hpayload := (@IsId.payload_eq id mem time state h).2
  have hlen : (ascii "PUB " ++ stateTopic id ++ [0x20] ++
      statePayload id mem time state).length ≤ Busd.maxLine - 1 := by
    rw [htopic]
    simp only [List.length_append, hends, List.length_singleton, Busd.maxLine]
    omega
  let message : Busd.Message :=
    ⟨stateTopic id, statePayload id mem time state, hword, h.payload_line⟩
  have hline : stateLine id mem time state = Busd.wire [message] := by
    rw [stateLine, Busd.busPublish, List.take_of_length_le hlen, Busd.sendLine, Busd.wire,
      List.map_singleton, join_cons, join_nil, Busd.Message.line]
  rw [heard, hline, Busd.decode_wire, List.map_singleton, List.map_singleton, Busd.Message.call,
    h.status]
  exact congrArg (fun topic => [(topic, some state.text)]) htopic

end Heard

end Lifecycle
end BuildingBlocks
