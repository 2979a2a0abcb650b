import BuildingBlocks.Lib.Blocks
import Mathlib.Algebra.Order.BigOperators.Group.List
import Mathlib.Algebra.Order.Ring.Int
import Mathlib.Algebra.Order.Ring.Nat
import Mathlib.Data.List.GetD

/-!
# BuildingBlocks.Hal.Gpio

Global line numbers over the gpiochips of `hal/bb_hal_gpio.c`.

* `gpioFindChip` is `gpio_find_chip`, with the arithmetic of `int`.
* `gpioFindChip_eq` — on counts that an `int` holds it locates the number in the chips that can be
  read.
* `addresses_iff` — so the number is that of the line it finds exactly when no chip in front of the
  line is skipped with its lines.
-/

namespace BuildingBlocks
namespace Hal
namespace Gpio

open Lib

/-! ## The code -/

/-- A gpiochip: its number of lines, and whether `open` and the info ioctl succeed. -/
structure Chip where
  lines : UInt32
  opens : Bool
  info : Bool
deriving DecidableEq, Repr

/-- A conversion to `int`. -/
def toInt (n : Int) : Int := n.bmod (2 ^ 32)

/-- The loop of `gpio_find_chip` from chip `i` on: the chip and the offset. -/
def scanFrom : Nat → List Chip → Int → Option (Nat × Int)
  | _, [], _ => none
  | i, c :: chips, num =>
    if !c.opens then scanFrom (i + 1) chips num
    else if c.info then
      if toInt c.lines.toNat ≤ num then scanFrom (i + 1) chips (toInt (num - c.lines.toNat))
      else some (i, num)
    else scanFrom (i + 1) chips num

/-- `gpio_find_chip`; the chips from `/dev/gpiochip8` on are not looked at. -/
def gpioFindChip (chips : List Chip) (num : Int) : Option (Nat × Int) :=
  scanFrom 0 (chips.take 8) num

/-! ## The law -/

def Chip.readable (c : Chip) : Bool := c.opens && c.info

/-- The chip if it could be read. -/
def Chip.working (c : Chip) : Chip := { c with opens := true, info := true }

def counts (chips : List Chip) : List Nat := chips.map (·.lines.toNat)

/-- The lines of the chip at a place; none behind the last chip. -/
def linesAt (chips : List Chip) (i : Nat) : Nat := (counts chips).getD i 0

/-- A number finds a line of its chip. -/
def FindsLine (chips : List Chip) (num : Int) (line : Nat × Int) : Prop :=
  gpioFindChip chips num = some line ∧ 0 ≤ line.2 ∧ line.2 < linesAt chips line.1

/-- What the number addresses is what it would address if all chips could be read, and when they
can, every number below the total has a line of its own. -/
structure Addresses (chips : List Chip) (num : Nat) : Prop where
  same : ∀ line, gpioFindChip chips num = some line →
    FindsLine (chips.map Chip.working) num line
  own : (∀ c ∈ chips, c.readable = true) → ∀ a : Nat, a < (counts chips).sum → a < 2 ^ 31 →
    ∃ line, FindsLine chips a line ∧ ∀ b : Nat, b < (counts chips).sum → b < 2 ^ 31 →
      gpioFindChip chips b = some line → b = a

/-- The counts the scan looks at are those of an `int`. -/
def Small (chips : List Chip) : Prop := ∀ c ∈ chips.take 8, c.lines.toNat < 2 ^ 31

instance (chips : List Chip) : Decidable (Small chips) :=
  inferInstanceAs (Decidable (∀ _ ∈ _, _))

/-- The lines the scan counts: those of the chips it can read. -/
def Chip.seen (c : Chip) : Nat := if c.readable then c.lines.toNat else 0

def seen (chips : List Chip) : List Nat := (chips.take 8).map Chip.seen

/-- Where the number falls among the lines of the chips that can be read, no chip in front of that
place hides lines. -/
def Unhidden (chips : List Chip) (num : Nat) : Prop :=
  ∀ i < 8, before (seen chips) i ≤ num → num < before (seen chips) i + (seen chips).getD i 0 →
    ∀ c ∈ chips.take i, c.readable = false → c.lines = 0

instance (chips : List Chip) (num : Nat) : Decidable (Unhidden chips num) :=
  inferInstanceAs (Decidable (∀ _ < _, _ → _ → ∀ _ ∈ _, _ → _))

/-- With all chips readable no line of an `int` number stands behind the eighth chip. -/
def Scanned (chips : List Chip) : Prop :=
  (∀ c ∈ chips, c.readable = true) →
    (counts chips).sum ≤ (counts (chips.take 8)).sum ∨ 2 ^ 31 ≤ (counts (chips.take 8)).sum

instance (chips : List Chip) : Decidable (Scanned chips) :=
  inferInstanceAs (Decidable ((∀ _ ∈ _, _) → _ ∨ _))

/-! ## The scan -/

section Scan

variable {chips : List Chip} {c : Chip} {num : Nat}

theorem toInt_of_lt {n : Nat} (h : n < 2 ^ 31) : toInt n = n :=
  Int.bmod_eq_of_le (by omega) (by omega)

theorem scanFrom_cons_readable (h : c.readable = true) (i : Nat) (num : Int) :
    scanFrom i (c :: chips) num =
      if toInt c.lines.toNat ≤ num then scanFrom (i + 1) chips (toInt (num - c.lines.toNat))
      else some (i, num) := by
  rw [Chip.readable, Bool.and_eq_true] at h
  rw [scanFrom, h.1, h.2]
  rfl

theorem scanFrom_cons_skipped (h : c.readable = false) (i : Nat) (num : Int) :
    scanFrom i (c :: chips) num = scanFrom (i + 1) chips num := by
  rw [Chip.readable, Bool.and_eq_false_iff] at h
  rw [scanFrom]
  rcases h with h | h
  · rw [h]
    rfl
  · rw [h]
    split <;> rfl

/-- The scan locates the number among the lines it counts. -/
theorem scanFrom_eq (hsmall : ∀ c ∈ chips, c.lines.toNat < 2 ^ 31) (hnum : num < 2 ^ 31) (i : Nat) :
    scanFrom i chips num =
      (locate (chips.map Chip.seen) num).map (fun p => (i + p.1, (p.2 : Int))) := by
  induction chips generalizing num i with
  | nil => rfl
  | cons c chips ih =>
    have ih' : ∀ num : Nat, num < 2 ^ 31 → scanFrom (i + 1) chips num =
        (locate (chips.map Chip.seen) num).map (fun p => (i + 1 + p.1, (p.2 : Int))) :=
      fun num hnum => ih (fun c' hc' => hsmall c' (List.mem_cons_of_mem c hc')) hnum (i + 1)
    have hshift : ∀ q : Option (Nat × Nat), (q.map (fun p => (i + 1 + p.1, (p.2 : Int)))) =
        (q.map (fun p => (p.1 + 1, p.2))).map (fun p => (i + p.1, (p.2 : Int))) := by
      intro q
      rw [Option.map_map]
      refine congrArg (fun f => q.map f) (funext fun p => ?_)
      simp only [Function.comp_apply, Prod.mk.injEq, and_true]
      omega
    rw [List.map_cons, locate, Chip.seen]
    cases hread : c.readable with
    | false =>
      rw [scanFrom_cons_skipped hread, ih' num hnum, if_neg (by simp), if_neg (by simp), hshift]
      simp
    | true =>
      have hc := hsmall c List.mem_cons_self
      rw [scanFrom_cons_readable hread, toInt_of_lt hc, if_pos rfl]
      by_cases hlt : num < c.lines.toNat
      · rw [if_neg (by omega), if_pos hlt]
        rfl
      · have hsub : (num : Int) - c.lines.toNat = ((num - c.lines.toNat : Nat) : Int) := by omega
        rw [if_pos (by omega), if_neg hlt, hsub, toInt_of_lt (by omega), ih' _ (by omega), hshift]

theorem gpioFindChip_eq (hsmall : Small chips) (hnum : num < 2 ^ 31) :
    gpioFindChip chips num =
      (locate (seen chips) num).map (fun p => (p.1, (p.2 : Int))) := by
  rw [gpioFindChip, scanFrom_eq hsmall hnum, seen]
  simp

end Scan

/-! ## Hidden lines -/

section Hidden

variable {chips : List Chip} {num i : Nat}

theorem Chip.seen_working (c : Chip) : c.working.seen = c.lines.toNat := if_pos rfl

theorem seen_working (chips : List Chip) :
    seen (chips.map Chip.working) = counts (chips.take 8) := by
  rw [seen, counts, ← List.map_take, List.map_map]
  exact List.map_congr_left (fun c _ => c.seen_working)

theorem seen_of_readable (h : ∀ c ∈ chips, c.readable = true) :
    seen chips = counts (chips.take 8) :=
  List.map_congr_left (fun c hc => if_pos (h c (List.mem_of_mem_take hc)))

theorem small_working (h : Small chips) : Small (chips.map Chip.working) := by
  intro c hc
  rw [← List.map_take] at hc
  obtain ⟨c', hc', rfl⟩ := List.mem_map.mp hc
  exact h c' hc'

theorem counts_working (chips : List Chip) : counts (chips.map Chip.working) = counts chips := by
  rw [counts, counts, List.map_map]
  rfl

theorem before_seen (h : i ≤ 8) : before (seen chips) i = ((chips.take i).map Chip.seen).sum := by
  rw [before, seen, ← List.map_take, List.take_take, Nat.min_eq_left h]

theorem before_counts (h : i ≤ 8) :
    before (counts (chips.take 8)) i = (counts (chips.take i)).sum := by
  rw [before, counts, ← List.map_take, List.take_take, Nat.min_eq_left h, counts]

theorem linesAt_take (h : i < 8) : (counts (chips.take 8)).getD i 0 = linesAt chips i := by
  rw [linesAt, counts, counts, List.map_take, List.getD_eq_getElem?_getD,
    List.getD_eq_getElem?_getD, List.getElem?_take_of_lt h]

/-- A place with a number in it is one the scan comes to. -/
theorem lt_of_seen {o : Nat} (h : o < (seen chips).getD i 0) : i < 8 := by
  by_contra hge
  have hlen : (seen chips).length ≤ 8 := by
    rw [seen, List.length_map, List.length_take]
    omega
  rw [List.getD_eq_default _ _ (by omega)] at h
  omega

/-- The scan counts all lines of some chips exactly when none of them hides any. -/
theorem sum_seen_eq_iff {cs : List Chip} : (cs.map Chip.seen).sum = (counts cs).sum ↔
    ∀ c ∈ cs, c.readable = false → c.lines = 0 := by
  induction cs with
  | nil => simp [counts]
  | cons c cs ih =>
    have hle : (cs.map Chip.seen).sum ≤ (counts cs).sum := by
      refine List.sum_le_sum (fun c _ => ?_)
      unfold Chip.seen
      split <;> omega
    have hc : c.seen ≤ c.lines.toNat ∧
        (c.seen = c.lines.toNat ↔ (c.readable = false → c.lines = 0)) := by
      unfold Chip.seen
      cases hread : c.readable with
      | true => simp
      | false =>
        rw [← UInt32.toNat_inj]
        simp [eq_comm]
    rw [List.forall_mem_cons, ← ih, ← hc.2]
    simp only [counts, List.map_cons, List.sum_cons] at hle ⊢
    omega

/-- Where no lines are hidden, the chip at the place shows all of its own too. -/
theorem seen_getD (h : i < 8) {o : Nat} (ho : o < (seen chips).getD i 0) :
    (seen chips).getD i 0 = linesAt chips i := by
  have hseen : (seen chips).getD i 0 = ((chips.map Chip.seen)[i]?).getD 0 := by
    rw [seen, List.map_take, List.getD_eq_getElem?_getD, List.getElem?_take_of_lt h]
  have hlines : linesAt chips i = ((chips.map (·.lines.toNat))[i]?).getD 0 := by
    rw [linesAt, counts, List.getD_eq_getElem?_getD]
  rw [hseen] at ho ⊢
  rw [hlines]
  rw [List.getElem?_map] at ho ⊢
  rw [List.getElem?_map]
  cases hc : chips[i]? with
  | none => rfl
  | some c =>
    rw [hc] at ho
    simp only [Option.map_some, Option.getD_some, Chip.seen] at ho ⊢
    split at ho
    · next hread => exact if_pos hread
    · omega

theorem gpioFindChip_eq_some (hsmall : Small chips) (hnum : num < 2 ^ 31) {line : Nat × Int} :
    gpioFindChip chips num = some line ↔
      ∃ o, locate (seen chips) num = some (line.1, o) ∧ line.2 = o := by
  rw [gpioFindChip_eq hsmall hnum, Option.map_eq_some_iff]
  constructor
  · rintro ⟨p, hp, rfl⟩
    exact ⟨p.2, hp, rfl⟩
  · rintro ⟨o, ho, hline⟩
    exact ⟨(line.1, o), ho, Prod.ext rfl hline.symm⟩

/-- A number that is found stands where it would stand if all chips could be read, exactly when
no lines are hidden in front of it. -/
theorem same_iff (hsmall : Small chips) (hnum : num < 2 ^ 31) :
    (∀ line, gpioFindChip chips num = some line →
      FindsLine (chips.map Chip.working) num line) ↔ Unhidden chips num := by
  constructor
  · intro h i hi hlo hhi
    have hfind : gpioFindChip chips num = some (i, ((num - before (seen chips) i : Nat) : Int)) :=
      (gpioFindChip_eq_some hsmall hnum).mpr ⟨num - before (seen chips) i,
        locate_eq_some.mpr ⟨by simp only; omega, by simp only; omega⟩, rfl⟩
    obtain ⟨o, ho, hline⟩ :=
      (gpioFindChip_eq_some (small_working hsmall) hnum).mp (h _ hfind).1
    rw [seen_working, locate_eq_some, before_counts hi.le] at ho
    have hseen := @before_seen chips i hi.le
    refine sum_seen_eq_iff.mp ?_
    simp only at ho hline
    omega
  · intro h line hline
    obtain ⟨o, ho, hoff⟩ := (gpioFindChip_eq_some hsmall hnum).mp hline
    obtain ⟨hlt, hsum⟩ := locate_eq_some.mp ho
    have hi := lt_of_seen hlt
    have hlines := seen_getD hi hlt
    have hall := sum_seen_eq_iff.mpr (h line.1 hi (by omega) (by omega))
    rw [← before_seen hi.le, ← before_counts hi.le] at hall
    refine ⟨?_, by omega, ?_⟩
    · refine (gpioFindChip_eq_some (small_working hsmall) hnum).mpr ⟨o, ?_, hoff⟩
      rw [seen_working, locate_eq_some, linesAt_take hi]
      omega
    · rw [linesAt, counts_working, ← linesAt]
      omega

theorem sum_take_le (chips : List Chip) : (counts (chips.take 8)).sum ≤ (counts chips).sum := by
  rw [counts, counts, List.map_take]
  exact (List.take_sublist _ _).sum_le_sum (fun _ _ => Nat.zero_le _)

/-- Every number has a line of its own exactly when the scan gets to all of them. -/
theorem own_iff (hsmall : Small chips) :
    ((∀ c ∈ chips, c.readable = true) → ∀ a : Nat, a < (counts chips).sum → a < 2 ^ 31 →
      ∃ line, FindsLine chips a line ∧ ∀ b : Nat, b < (counts chips).sum → b < 2 ^ 31 →
        gpioFindChip chips b = some line → b = a) ↔ Scanned chips := by
  refine forall_congr' fun hread => ?_
  have hseen := seen_of_readable hread
  constructor
  · intro h
    by_contra hno
    have hle := sum_take_le chips
    obtain ⟨line, ⟨hline, -⟩, -⟩ := h (counts (chips.take 8)).sum (by omega) (by omega)
    obtain ⟨o, ho, -⟩ := (gpioFindChip_eq_some hsmall (by omega)).mp hline
    have hlt := locate_isSome.mp (Option.isSome_of_eq_some ho)
    rw [hseen] at hlt
    omega
  · intro h a ha hint
    have hsome : (locate (seen chips) a).isSome := by
      rw [locate_isSome, hseen]
      omega
    obtain ⟨p, hp⟩ := Option.isSome_iff_exists.mp hsome
    obtain ⟨hlt, hsum⟩ := locate_eq_some.mp hp
    have hlines := seen_getD (lt_of_seen hlt) hlt
    refine ⟨(p.1, (p.2 : Int)), ⟨?_, by simp, by simp only; omega⟩, ?_⟩
    · exact (gpioFindChip_eq_some hsmall hint).mpr ⟨p.2, hp, rfl⟩
    · intro b hb hbint hfind
      obtain ⟨o, ho, hoff⟩ := (gpioFindChip_eq_some hsmall hbint).mp hfind
      have ho' : o = p.2 := by
        exact (Int.ofNat.inj hoff).symm
      rw [ho'] at ho
      exact locate_inj ho hp

end Hidden

/-- **A number addresses its own line exactly when** no chip in front of the line hides lines and
the scan gets to all chips with lines, as far as an `int` holds the counts; in any case these
conditions are enough. -/
theorem addresses_iff {chips : List Chip} {num : Nat} (hnum : num < 2 ^ 31) :
    (Small chips ∧ Unhidden chips num ∧ Scanned chips → Addresses chips num) ∧
      (Small chips → Addresses chips num → Unhidden chips num ∧ Scanned chips) := by
  refine ⟨?_, ?_⟩
  · rintro ⟨hsmall, hhidden, hscan⟩
    exact ⟨(same_iff hsmall hnum).mpr hhidden, (own_iff hsmall).mpr hscan⟩
  · intro hsmall h
    exact ⟨(same_iff hsmall hnum).mp h.same, (own_iff hsmall).mp h.own⟩

/-- Three chips of 32 lines, the second of which does not open. -/
def skipsOne : List Chip := [⟨32, true, true⟩, ⟨32, false, true⟩, ⟨32, true, true⟩]

theorem addresses_skipsOne : (Small skipsOne ∧ Unhidden skipsOne 5 ∧ Scanned skipsOne →
      Addresses skipsOne 5) ∧
    (Small skipsOne → Addresses skipsOne 5 → Unhidden skipsOne 5 ∧ Scanned skipsOne) :=
  addresses_iff (by decide)

/-- Line 8 of the third chip is driven for line 8 of the second. -/
theorem skipsOne_wrong : ¬ Addresses skipsOne 40 ∧
    gpioFindChip skipsOne 40 = some (2, 8) ∧
    gpioFindChip (skipsOne.map Chip.working) 40 = some (1, 8) := by
  refine ⟨fun h => ?_, by decide, by decide⟩
  obtain ⟨hfind, -⟩ := h.same (2, 8) (by decide)
  exact absurd hfind (by decide)

end Gpio
end Hal
end BuildingBlocks
