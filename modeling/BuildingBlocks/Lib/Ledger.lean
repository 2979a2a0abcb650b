import BuildingBlocks.Lib.Run

/-!
# BuildingBlocks.Lib.Ledger

Users that acquire and release resources of one pool.

* `Act.within` is what one user may do on its own account: release what it holds.
* `Book` has the holder of every resource, and the strays, releases of what the user did not hold.
  `frame` — what is within the account of one user leaves all other accounts alone.
* `run_within_release_iff` — an account is closed by releasing what is in it, in any order.
* `Kind` is a kind of object with calls that open it and a call that closes it, releasing what the
  fields of the object name; `Kind.step` interleaves the calls of many objects with the acts of the
  rest of the world.
* `tidy_iff` — nothing is lost and nothing foreign is released in exactly the runs in which only
  objects that hold nothing are opened, and none is closed whose fields name what it does not hold.
-/

namespace BuildingBlocks
namespace Lib

inductive Act (ρ : Type*) where
  | acquire (r : ρ)
  | release (r : ρ)
deriving DecidableEq, Repr

variable {ι σ κ ρ : Type*} [DecidableEq ι] [DecidableEq ρ]

/-- The account of one user. -/
def Act.within (own : List ρ) : Act ρ → Option (List ρ)
  | .acquire r => some (r :: own)
  | .release r => if r ∈ own then some (own.erase r) else none

/-- Who holds what, and who released what it did not hold. -/
structure Book (ι ρ : Type*) where
  holder : ρ → Option ι
  strays : List (ι × ρ)

/-- An act of the user `i`. Only what is free can be acquired; what is released is free, whoever
held it. -/
def Book.perform (i : ι) (b : Book ι ρ) : Act ρ → Option (Book ι ρ)
  | .acquire r =>
    if b.holder r = none then some { b with holder := Function.update b.holder r (some i) }
    else none
  | .release r =>
    some
      { holder := Function.update b.holder r none
        strays := if b.holder r = some i then b.strays else b.strays ++ [(i, r)] }

/-- An act of a user that releases only what it holds. -/
def Book.keep (i : ι) (b : Book ι ρ) : Act ρ → Option (Book ι ρ)
  | .acquire r => b.perform i (.acquire r)
  | .release r => if b.holder r = some i then b.perform i (.release r) else none

/-! ## The frame rule -/

/-- The account of the user `i` on top of the rest. -/
def Book.join (rest : ρ → Option ι) (i : ι) (own : List ρ) (strays : List (ι × ρ)) : Book ι ρ :=
  { holder := fun r => if r ∈ own then some i else rest r, strays := strays }

/-- Nothing is in the account twice, or in the rest too. -/
def Apart (rest : ρ → Option ι) (own : List ρ) : Prop :=
  own.Nodup ∧ ∀ r ∈ own, rest r = none

section Frame

variable {rest : ρ → Option ι} {i : ι} {own own' : List ρ} {strays : List (ι × ρ)} {a : Act ρ}
  {acts : List (Act ρ)} {b b' : Book ι ρ} {r : ρ}

omit [DecidableEq ι] [DecidableEq ρ] in
theorem apart_nil : Apart rest [] := ⟨List.nodup_nil, fun _ h => absurd h List.not_mem_nil⟩

omit [DecidableEq ι] in
theorem join_nil_own (b : Book ι ρ) : Book.join b.holder i [] b.strays = b := by
  simp [Book.join]

theorem Apart.perform (h : Apart rest own) (hw : a.within own = some own')
    (hb : (Book.join rest i own strays).perform i a = some b') :
    b' = Book.join rest i own' strays ∧ Apart rest own' := by
  cases a with
  | acquire r =>
    cases hw
    by_cases hmem : r ∈ own
    · simp [Book.perform, Book.join, hmem] at hb
    simp only [Book.perform, Book.join, if_neg hmem] at hb
    split_ifs at hb with hfree
    cases hb
    refine ⟨?_, List.nodup_cons.mpr ⟨hmem, h.1⟩, ?_⟩
    · simp only [Book.join, Book.mk.injEq, and_true]
      funext x
      by_cases hx : x = r
      · subst hx
        simp
      · simp [hx]
    · intro x hx
      rcases List.mem_cons.mp hx with rfl | hx
      · exact hfree
      · exact h.2 x hx
  | release r =>
    simp only [Act.within] at hw
    split_ifs at hw with hmem
    cases hw
    cases hb
    refine ⟨?_, h.1.erase r, fun x hx => h.2 x (List.mem_of_mem_erase hx)⟩
    simp only [Book.join, if_pos hmem, if_true, Book.mk.injEq, and_true]
    funext x
    by_cases hx : x = r
    · subst hx
      simp [h.1.mem_erase_iff, h.2 x hmem]
    · simp [h.1.mem_erase_iff, hx]

/-- What a user does within its account leaves the rest alone. -/
theorem frame (h : Apart rest own) (hw : run Act.within own acts = some own')
    (hb : run (Book.perform i) (Book.join rest i own strays) acts = some b') :
    b' = Book.join rest i own' strays ∧ Apart rest own' := by
  induction acts generalizing own with
  | nil =>
    cases hw
    cases hb
    exact ⟨rfl, h⟩
  | cons a acts ih =>
    obtain ⟨own₁, hw₁, hw₂⟩ := run_cons_eq_some.mp hw
    obtain ⟨b₁, hb₁, hb₂⟩ := run_cons_eq_some.mp hb
    obtain ⟨rfl, h₁⟩ := h.perform hw₁ hb₁
    exact ih h₁ hw₂ hb₂

/-- What is acquired was free in the rest. -/
theorem free_of_acquire (h : Apart rest own) (hw : run Act.within own acts = some own')
    (hb : run (Book.perform i) (Book.join rest i own strays) acts = some b')
    (hr : .acquire r ∈ acts) : rest r = none := by
  induction acts generalizing own with
  | nil => exact absurd hr List.not_mem_nil
  | cons a acts ih =>
    obtain ⟨own₁, hw₁, hw₂⟩ := run_cons_eq_some.mp hw
    obtain ⟨b₁, hb₁, hb₂⟩ := run_cons_eq_some.mp hb
    obtain ⟨rfl, h₁⟩ := h.perform hw₁ hb₁
    rcases List.mem_cons.mp hr with rfl | hr
    · cases hw₁
      exact h₁.2 r List.mem_cons_self
    · exact ih h₁ hw₂ hb₂ hr

omit [DecidableEq ι] in
/-- What is released was held. -/
theorem run_within_release {rs : List ρ} (h : run Act.within own (rs.map .release) = some own') :
    own.Perm (rs ++ own') := by
  induction rs generalizing own with
  | nil =>
    cases h
    exact List.Perm.refl _
  | cons r rs ih =>
    obtain ⟨own₁, h₁, h₂⟩ := run_cons_eq_some.mp h
    simp only [Act.within] at h₁
    split_ifs at h₁ with hr
    cases h₁
    exact (List.perm_cons_erase hr).trans ((ih h₂).cons r)

omit [DecidableEq ι] in
/-- The order of an account does not matter. -/
theorem run_within_perm {own₂ : List ρ} (hperm : own.Perm own₂)
    (h : run Act.within own acts = some own') :
    ∃ own₂', run Act.within own₂ acts = some own₂' ∧ own'.Perm own₂' := by
  induction acts generalizing own own₂ with
  | nil =>
    cases h
    exact ⟨own₂, rfl, hperm⟩
  | cons a acts ih =>
    obtain ⟨own₁, h₁, h₂⟩ := run_cons_eq_some.mp h
    cases a with
    | acquire r =>
      cases h₁
      obtain ⟨o, ho, hp⟩ := ih (hperm.cons r) h₂
      exact ⟨o, run_cons_eq_some.mpr ⟨_, rfl, ho⟩, hp⟩
    | release r =>
      simp only [Act.within] at h₁
      split_ifs at h₁ with hr
      cases h₁
      obtain ⟨o, ho, hp⟩ := ih (hperm.erase r) h₂
      exact ⟨o, run_cons_eq_some.mpr ⟨_, if_pos (hperm.mem_iff.mp hr), ho⟩, hp⟩

omit [DecidableEq ι] in
theorem run_within_of_perm {rs : List ρ} (h : own.Perm (rs ++ own')) :
    ∃ o, run Act.within own (rs.map .release) = some o ∧ o.Perm own' := by
  have hfront : ∀ rs own' : List ρ,
      run Act.within (rs ++ own') (rs.map .release) = some own' := by
    intro rs own'
    induction rs with
    | nil => rfl
    | cons r rs ih =>
      refine run_cons_eq_some.mpr ⟨rs ++ own', ?_, ih⟩
      simp [Act.within]
  obtain ⟨o, ho, hp⟩ := run_within_perm h.symm (hfront rs own')
  exact ⟨o, ho, hp.symm⟩

omit [DecidableEq ι] in
/-- Exactly what is held is released, in any order. -/
theorem run_within_release_iff {rs : List ρ} :
    run Act.within own (rs.map .release) = some [] ↔ own.Perm rs := by
  constructor
  · intro h
    have hperm := run_within_release h
    rwa [List.append_nil] at hperm
  · intro hperm
    have hall : own.Perm (rs ++ []) := by rwa [List.append_nil]
    obtain ⟨o, ho, hp⟩ := run_within_of_perm hall
    rw [ho, hp.eq_nil]

omit [DecidableEq ι] in
theorem run_within_acquire (rs : List ρ) (own : List ρ) (acts : List (Act ρ)) :
    run Act.within own (rs.map .acquire ++ acts) = run Act.within (rs.reverse ++ own) acts := by
  induction rs generalizing own with
  | nil => rfl
  | cons r rs ih =>
    rw [List.map_cons, List.cons_append, run]
    dsimp only [Act.within]
    rw [ih, List.reverse_cons, List.append_assoc]
    rfl

omit [DecidableEq ι] in
/-- What is held besides does not matter. -/
theorem run_within_append (h : run Act.within own acts = some own') (more : List ρ) :
    run Act.within (own ++ more) acts = some (own' ++ more) := by
  induction acts generalizing own with
  | nil =>
    cases h
    rfl
  | cons a acts ih =>
    obtain ⟨own₁, h₁, h₂⟩ := run_cons_eq_some.mp h
    refine run_cons_eq_some.mpr ⟨own₁ ++ more, ?_, ih h₂⟩
    cases a with
    | acquire r =>
      cases h₁
      rfl
    | release r =>
      simp only [Act.within] at h₁ ⊢
      split_ifs at h₁ with hr
      cases h₁
      rw [if_pos (List.mem_append_left more hr), List.erase_append_left _ hr]

/-- Acts on an empty account that leave `own` in it, in some order. -/
def Leaves (acts : List (Act ρ)) (own : List ρ) : Prop :=
  ∃ o, run Act.within [] acts = some o ∧ o.Perm own

omit [DecidableEq ι] in
theorem leaves_nil : Leaves ([] : List (Act ρ)) [] := ⟨[], rfl, List.Perm.refl _⟩

omit [DecidableEq ι] in
theorem Leaves.append {bs : List (Act ρ)} (h : Leaves acts own) (h' : Leaves bs own') :
    Leaves (acts ++ bs) (own' ++ own) := by
  obtain ⟨o, ho, hp⟩ := h
  obtain ⟨o', ho', hp'⟩ := h'
  have hmore := run_within_append ho' o
  rw [List.nil_append] at hmore
  exact ⟨o' ++ o, run_append_eq_some.mpr ⟨o, ho, hmore⟩, hp'.append hp⟩

omit [DecidableEq ι] in
theorem Leaves.release {rs : List ρ} (h : Leaves acts own) (hperm : own.Perm (rs ++ own')) :
    Leaves (acts ++ rs.map .release) own' := by
  obtain ⟨o, ho, hp⟩ := h
  obtain ⟨o', ho', hp'⟩ := run_within_of_perm (hp.trans hperm)
  exact ⟨o', run_append_eq_some.mpr ⟨o, ho, ho'⟩, hp'⟩

/-- The book has the account `own` of the user `i`, who released nothing else. -/
structure Accounts (b : Book ι ρ) (i : ι) (own : List ρ) : Prop where
  strays : b.strays = []
  holds : ∀ r, b.holder r = some i ↔ r ∈ own
  nodup : own.Nodup

omit [DecidableEq ι] [DecidableEq ρ] in
theorem Accounts.perm (h : Accounts b i own) (hperm : own.Perm own') : Accounts b i own' where
  strays := h.strays
  holds := fun r => (h.holds r).trans hperm.mem_iff
  nodup := hperm.nodup_iff.mp h.nodup

omit [DecidableEq ι] in
theorem Accounts.split (h : Accounts b i own) :
    ∃ rest, b = Book.join rest i own [] ∧ Apart rest own ∧ ∀ r, rest r ≠ some i := by
  refine ⟨fun r => if r ∈ own then none else b.holder r, ?_,
    ⟨h.nodup, fun r hr => if_pos hr⟩, ?_⟩
  · have hholder : b.holder = fun r => if r ∈ own then some i
        else if r ∈ own then none else b.holder r := by
      funext r
      by_cases hr : r ∈ own
      · rw [if_pos hr, (h.holds r).mpr hr]
      · rw [if_neg hr, if_neg hr]
    rw [Book.join, ← hholder, ← h.strays]
  · intro r
    dsimp only
    split_ifs with hr
    · exact Option.some_ne_none _ |>.symm
    · exact fun he => hr ((h.holds r).mp he)

/-- What a user does within its account. -/
theorem Accounts.run (h : Accounts b i own) (hw : Lib.run Act.within own acts = some own')
    (hb : Lib.run (Book.perform i) b acts = some b') : Accounts b' i own' := by
  obtain ⟨rest, rfl, hapart, hrest⟩ := h.split
  obtain ⟨rfl, hapart'⟩ := frame hapart hw hb
  refine ⟨rfl, fun r => ?_, hapart'.1⟩
  show (if r ∈ own' then some i else rest r) = some i ↔ r ∈ own'
  split_ifs with hr
  · exact iff_of_true rfl hr
  · exact iff_of_false (hrest r) hr

/-- What a user does within its account leaves the accounts of the others alone. -/
theorem Accounts.run_other {j : ι} {ownJ : List ρ} (hj : Accounts b j ownJ) (hne : j ≠ i)
    (h : Accounts b i own) (hw : Lib.run Act.within own acts = some own')
    (hb : Lib.run (Book.perform i) b acts = some b') : Accounts b' j ownJ := by
  obtain ⟨rest, rfl, hapart, hrest⟩ := h.split
  obtain ⟨rfl, hapart'⟩ := frame hapart hw hb
  have hsame : ∀ own : List ρ, Apart rest own → ∀ r,
      (Book.join rest i own []).holder r = some j ↔ rest r = some j := by
    intro own hown r
    show (if r ∈ own then some i else rest r) = some j ↔ rest r = some j
    split_ifs with hr
    · rw [hown.2 r hr]
      exact iff_of_false (fun he => hne (Option.some.inj he).symm) (Option.some_ne_none _).symm
    · exact Iff.rfl
  exact ⟨rfl, fun r => (hsame own' hapart' r).trans
    ((hsame own hapart r).symm.trans (hj.holds r)), hj.nodup⟩

theorem strays_keep (hb : b.keep i a = some b') : b'.strays = b.strays := by
  cases a with
  | acquire r =>
    simp only [Book.keep, Book.perform] at hb
    split_ifs at hb
    cases hb
    rfl
  | release r =>
    simp only [Book.keep, Book.perform] at hb
    split_ifs at hb
    cases hb
    rfl

theorem holder_keep {j : ι} (hne : j ≠ i) (hb : b.keep i a = some b') (x : ρ) :
    b'.holder x = some j ↔ b.holder x = some j := by
  cases a with
  | acquire r =>
    simp only [Book.keep, Book.perform] at hb
    split_ifs at hb with hfree
    cases hb
    dsimp only
    by_cases hx : x = r
    · subst hx
      rw [Function.update_self, hfree]
      simp [hne.symm]
    · rw [Function.update_of_ne hx]
  | release r =>
    simp only [Book.keep, Book.perform] at hb
    split_ifs at hb with hown
    cases hb
    dsimp only
    by_cases hx : x = r
    · subst hx
      rw [Function.update_self, hown]
      simp [hne.symm]
    · rw [Function.update_of_ne hx]

/-- A user that releases only what it holds leaves the accounts of the others alone. -/
theorem Accounts.keep {j : ι} (h : Accounts b j own) (hne : j ≠ i) (hb : b.keep i a = some b') :
    Accounts b' j own where
  strays := (strays_keep hb).trans h.strays
  holds := fun r => (holder_keep hne hb r).trans (h.holds r)
  nodup := h.nodup

theorem strays_mono (hne : b.strays ≠ []) (hb : Lib.run (Book.perform i) b acts = some b') :
    b'.strays ≠ [] := by
  refine run_invariant (I := fun b => b.strays ≠ []) ?_ hne hb
  intro b a b' hne hs
  cases a with
  | acquire r =>
    simp only [Book.perform] at hs
    split_ifs at hs
    cases hs
    exact hne
  | release r =>
    cases hs
    dsimp only
    split_ifs
    · exact hne
    · simp

/-- What goes beyond the account shows. -/
theorem Accounts.strays_of_none (h : Accounts b i own) (hw : Lib.run Act.within own acts = none)
    (hb : Lib.run (Book.perform i) b acts = some b') : b'.strays ≠ [] := by
  induction acts generalizing b own with
  | nil => cases hw
  | cons a acts ih =>
    obtain ⟨b₁, hb₁, hb₂⟩ := run_cons_eq_some.mp hb
    cases hstep : a.within own with
    | some own₁ =>
      have hone : Lib.run Act.within own [a] = some own₁ :=
        run_cons_eq_some.mpr ⟨own₁, hstep, rfl⟩
      have h₁ := h.run hone (run_cons_eq_some.mpr ⟨b₁, hb₁, rfl⟩)
      rw [Lib.run, hstep] at hw
      exact ih h₁ hw hb₂
    | none =>
      refine strays_mono ?_ hb₂
      cases a with
      | acquire r => cases hstep
      | release r =>
        have hr : r ∉ own := fun hmem => by simp [Act.within, hmem] at hstep
        have hnot : b.holder r ≠ some i := fun he => hr ((h.holds r).mp he)
        cases hb₁
        simp [if_neg hnot]

end Frame

/-! ## Objects that are opened and closed -/

/-- A kind of object. After a `stale` call the fields of the object name something, but the object
holds nothing; after any other call it holds what they name. -/
structure Kind (σ κ ρ : Type*) [DecidableEq ρ] where
  opens : κ → σ × List (Act ρ)
  closes : σ → σ × List (Act ρ)
  named : σ → List ρ
  stale : κ → Bool
  opens_within : ∀ k, run Act.within [] (opens k).2 =
    some (if stale k then [] else named (opens k).1)
  named_stale : ∀ k, stale k = true → named (opens k).1 ≠ []
  acquired : ∀ k, ∀ r ∈ named (opens k).1, .acquire r ∈ (opens k).2
  closes_acts : ∀ s, (closes s).2 = (named s).map .release
  named_closes : ∀ s, named (closes s).1 = []

/-- The last call on an object. -/
inductive Past (κ : Type*) where
  | fresh
  | opened (k : κ)
  | closed

/-- The objects, and the book of what they and the rest of the world hold. -/
structure Objects (ι σ κ ρ : Type*) where
  dev : ι → σ
  past : ι → Past κ
  book : Book (Option ι) ρ

inductive Move (ι κ ρ : Type*) where
  | opens (i : ι) (k : κ)
  | closes (i : ι)
  /-- The rest of the world acquires something or releases what it holds. -/
  | other (a : Act ρ)

namespace Kind

variable (K : Kind σ κ ρ)

def step (s : Objects ι σ κ ρ) : Move ι κ ρ → Option (Objects ι σ κ ρ)
  | .opens i k =>
    (run (Book.perform (some i)) s.book (K.opens k).2).map fun b =>
      { dev := Function.update s.dev i (K.opens k).1
        past := Function.update s.past i (.opened k)
        book := b }
  | .closes i =>
    (run (Book.perform (some i)) s.book (K.closes (s.dev i)).2).map fun b =>
      { dev := Function.update s.dev i (K.closes (s.dev i)).1
        past := Function.update s.past i .closed
        book := b }
  | .other a => (s.book.keep none a).map fun b => { s with book := b }

/-- What a call leaves to the object. -/
def held (k : κ) : List ρ := if K.stale k then [] else K.named (K.opens k).1

/-- What an object holds after its last call. -/
def heldAfter : Past κ → List ρ
  | .fresh => []
  | .opened k => K.held k
  | .closed => []

/-- Nothing foreign was released, and what an object holds is named by its fields. -/
def Tidy (s : Objects ι σ κ ρ) : Prop :=
  s.book.strays = [] ∧ ∀ i r, s.book.holder r = some (some i) → r ∈ K.named (s.dev i)

/-- Only an object that holds nothing is opened, and none is closed after a stale call, or before
any call unless its fields name nothing. -/
def Careful (s : Objects ι σ κ ρ) : Move ι κ ρ → Prop
  | .opens i _ => K.heldAfter (s.past i) = []
  | .closes i =>
    match s.past i with
    | .fresh => K.named (s.dev i) = []
    | .opened k => K.stale k = false
    | .closed => True
  | .other _ => True

instance (s : Objects ι σ κ ρ) (m : Move ι κ ρ) : Decidable (K.Careful s m) :=
  match m with
  | .opens _ _ => inferInstanceAs (Decidable (_ = _))
  | .closes i =>
    match h : s.past i with
    | .fresh => decidable_of_iff (K.named (s.dev i) = []) (by simp only [Careful, h])
    | .opened k => decidable_of_iff (K.stale k = false) (by simp only [Careful, h])
    | .closed => .isTrue (by simp only [Careful, h])
  | .other _ => .isTrue trivial

/-- Each object holds what its last call left to it. -/
structure Inv (s : Objects ι σ κ ρ) : Prop where
  strays : s.book.strays = []
  accounts : ∀ i, Accounts s.book (some i) (K.heldAfter (s.past i))
  opened : ∀ i k, s.past i = .opened k → s.dev i = (K.opens k).1
  closed : ∀ i, s.past i = .closed → K.named (s.dev i) = []

section Law

variable {K} {s s' : Objects ι σ κ ρ} {i : ι} {k : κ} {m : Move ι κ ρ}

theorem held_stale (h : K.stale k = true) : K.held k = [] := if_pos h

theorem held_eq (h : K.stale k = false) : K.held k = K.named (K.opens k).1 := by
  rw [held, h, if_neg Bool.false_ne_true]

theorem held_named (k : κ) : K.held k ⊆ K.named (K.opens k).1 := by
  unfold held
  split_ifs
  · exact List.nil_subset _
  · exact List.Subset.refl _

omit [DecidableEq ι] in
theorem Inv.tidy (h : K.Inv s) : K.Tidy s := by
  refine ⟨h.strays, ?_⟩
  intro i r hr
  have hmem := ((h.accounts i).holds r).mp hr
  cases hpast : s.past i with
  | fresh =>
    rw [hpast] at hmem
    exact absurd hmem List.not_mem_nil
  | opened k =>
    rw [hpast] at hmem
    rw [h.opened i k hpast]
    exact held_named k hmem
  | closed =>
    rw [hpast] at hmem
    exact absurd hmem List.not_mem_nil

/-! ### Opening -/

/-- What is opened comes on top of all that was held. -/
theorem step_opens (hs : K.step s (.opens i k) = some s') :
    s'.dev = Function.update s.dev i (K.opens k).1 ∧
      s'.book = Book.join s.book.holder (some i) (K.held k) s.book.strays ∧
      ∀ r ∈ K.named (K.opens k).1, s.book.holder r = none := by
  obtain ⟨b, hb, rfl⟩ := Option.map_eq_some_iff.mp hs
  rw [← join_nil_own (i := some i) s.book] at hb
  obtain ⟨hbook, -⟩ := frame apart_nil (K.opens_within k) hb
  exact ⟨rfl, hbook,
    fun r hr => free_of_acquire apart_nil (K.opens_within k) hb (K.acquired k r hr)⟩

theorem Inv.opens (h : K.Inv s) (hs : K.step s (.opens i k) = some s')
    (hc : K.heldAfter (s.past i) = []) : K.Inv s' := by
  obtain ⟨b, hb, rfl⟩ := Option.map_eq_some_iff.mp hs
  have hempty : Accounts s.book (some i) [] := by
    rw [← hc]
    exact h.accounts i
  have hopened : Accounts b (some i) (K.held k) := hempty.run (K.opens_within k) hb
  refine ⟨hopened.strays, ?_, ?_, ?_⟩
  · intro j
    dsimp only
    by_cases hj : j = i
    · subst hj
      rw [Function.update_self]
      exact hopened
    · rw [Function.update_of_ne hj]
      exact (h.accounts j).run_other (by simpa using hj) hempty (K.opens_within k) hb
  · intro j k'
    dsimp only
    by_cases hj : j = i
    · subst hj
      rw [Function.update_self, Function.update_self]
      rintro ⟨⟩
      rfl
    · rw [Function.update_of_ne hj, Function.update_of_ne hj]
      exact h.opened j k'
  · intro j
    dsimp only
    by_cases hj : j = i
    · subst hj
      rw [Function.update_self]
      exact fun he => nomatch he
    · rw [Function.update_of_ne hj, Function.update_of_ne hj]
      exact h.closed j

/-- What an object held when it was opened again is lost. -/
theorem Inv.opens_iff (h : K.Inv s) (hs : K.step s (.opens i k) = some s') :
    K.Tidy s' ↔ K.heldAfter (s.past i) = [] := by
  refine ⟨?_, fun hc => (h.opens hs hc).tidy⟩
  rintro ⟨-, hnamed⟩
  obtain ⟨hdev, hbook, hfree⟩ := step_opens hs
  by_contra hne
  obtain ⟨r, hr⟩ := List.exists_mem_of_ne_nil _ hne
  have hheld := ((h.accounts i).holds r).mpr hr
  have hafter : s'.book.holder r = some (some i) := by
    rw [hbook]
    show (if r ∈ K.held k then some (some i) else s.book.holder r) = some (some i)
    rw [hheld, ite_self]
  have hmem := hnamed i r hafter
  rw [hdev, Function.update_self] at hmem
  rw [hfree r hmem] at hheld
  cases hheld

/-! ### Closing -/

theorem Inv.closes (h : K.Inv s) (hs : K.step s (.closes i) = some s')
    (hc : K.named (s.dev i) = K.heldAfter (s.past i)) : K.Inv s' := by
  obtain ⟨b, hb, rfl⟩ := Option.map_eq_some_iff.mp hs
  rw [K.closes_acts, hc] at hb
  have hempty : run Act.within (K.heldAfter (s.past i))
      ((K.heldAfter (s.past i)).map .release) = some [] :=
    run_within_release_iff.mpr (List.Perm.refl _)
  have hclosed : Accounts b (some i) [] := (h.accounts i).run hempty hb
  refine ⟨hclosed.strays, ?_, ?_, ?_⟩
  · intro j
    dsimp only
    by_cases hj : j = i
    · subst hj
      rw [Function.update_self]
      exact hclosed
    · rw [Function.update_of_ne hj]
      exact (h.accounts j).run_other (by simpa using hj) (h.accounts i) hempty hb
  · intro j k'
    dsimp only
    by_cases hj : j = i
    · subst hj
      rw [Function.update_self]
      exact fun he => nomatch he
    · rw [Function.update_of_ne hj, Function.update_of_ne hj]
      exact h.opened j k'
  · intro j
    dsimp only
    by_cases hj : j = i
    · subst hj
      rw [Function.update_self, Function.update_self]
      exact fun _ => K.named_closes _
    · rw [Function.update_of_ne hj, Function.update_of_ne hj]
      exact h.closed j

omit [DecidableEq ι] in
/-- The fields name what the object holds exactly when closing it is careful. -/
theorem Inv.named_iff (h : K.Inv s) (i : ι) :
    K.named (s.dev i) = K.heldAfter (s.past i) ↔ K.Careful s (.closes i) := by
  simp only [Careful]
  cases hpast : s.past i with
  | fresh => exact Iff.rfl
  | opened k =>
    rw [h.opened i k hpast]
    refine ⟨fun heq => ?_, fun hs => (held_eq hs).symm⟩
    cases hs : K.stale k with
    | false => exact hs
    | true => exact absurd (heq.trans (held_stale hs)) (K.named_stale k hs)
  | closed => exact iff_of_true (h.closed i hpast) trivial

/-- Otherwise something foreign is released. -/
theorem Inv.closes_iff (h : K.Inv s) (hs : K.step s (.closes i) = some s') :
    K.Tidy s' ↔ K.Careful s (.closes i) := by
  rw [← h.named_iff i]
  refine ⟨?_, fun hc => (h.closes hs hc).tidy⟩
  rintro ⟨hstrays, -⟩
  obtain ⟨b, hb, rfl⟩ := Option.map_eq_some_iff.mp hs
  rw [K.closes_acts] at hb
  have hsub : K.named (s.dev i) ⊆ K.heldAfter (s.past i) := by
    cases hw : run Act.within (K.heldAfter (s.past i)) ((K.named (s.dev i)).map .release) with
    | none => exact absurd hstrays ((h.accounts i).strays_of_none hw hb)
    | some own =>
      intro r hr
      exact (run_within_release hw).mem_iff.mpr (List.mem_append_left _ hr)
  cases hpast : s.past i with
  | fresh =>
    rw [hpast] at hsub
    exact List.subset_nil.mp hsub
  | opened k =>
    rw [h.opened i k hpast] at hsub ⊢
    rw [hpast] at hsub
    cases hstale : K.stale k with
    | true =>
      rw [heldAfter, held_stale hstale] at hsub
      exact absurd (List.subset_nil.mp hsub) (K.named_stale k hstale)
    | false => exact (held_eq hstale).symm
  | closed => exact h.closed i hpast

/-! ### The rest of the world -/

theorem Inv.other {a : Act ρ} (h : K.Inv s) (hs : K.step s (.other a) = some s') : K.Inv s' := by
  obtain ⟨b, hb, rfl⟩ := Option.map_eq_some_iff.mp hs
  exact ⟨(strays_keep hb).trans h.strays,
    fun i => (h.accounts i).keep (Option.some_ne_none i) hb, h.opened, h.closed⟩

end Law

variable {K}

theorem Inv.step_iff {s s' : Objects ι σ κ ρ} {m : Move ι κ ρ} (h : K.Inv s)
    (hs : K.step s m = some s') : K.Tidy s' ↔ K.Careful s m := by
  cases m with
  | opens i k => exact h.opens_iff hs
  | closes i => exact h.closes_iff hs
  | other a => exact iff_of_true (h.other hs).tidy trivial

theorem Inv.step {s s' : Objects ι σ κ ρ} {m : Move ι κ ρ} (h : K.Inv s) (hc : K.Careful s m)
    (hs : K.step s m = some s') : K.Inv s' := by
  cases m with
  | opens i k => exact h.opens hs hc
  | closes i => exact h.closes hs ((h.named_iff i).mpr hc)
  | other a => exact h.other hs

omit [DecidableEq ι] in
/-- Objects not called yet, in a world that holds what it likes. -/
theorem inv_fresh (dev : ι → σ) {holder : ρ → Option (Option ι)}
    (hfree : ∀ i r, holder r ≠ some (some i)) :
    K.Inv { dev := dev, past := fun _ => .fresh, book := { holder := holder, strays := [] } } where
  strays := rfl
  accounts := fun i =>
    ⟨rfl, fun r => iff_of_false (hfree i r) List.not_mem_nil, List.nodup_nil⟩
  opened := fun _ _ he => nomatch he
  closed := fun _ he => nomatch he

theorem tidy_iff {s s' : Objects ι σ κ ρ} {ms : List (Move ι κ ρ)} (h : K.Inv s)
    (hrun : run K.step s ms = some s') :
    Meets K.step (fun s m => ∀ s', K.step s m = some s' → K.Tidy s') s ms ↔
      Meets K.step K.Careful s ms := by
  refine meets_iff_of_invariant (I := K.Inv) ?_ (fun _ _ _ ht hc hs => ht.step hc hs) h hrun
  intro t m t' ht hs
  simp only [hs, Option.some.injEq, forall_eq']
  exact ht.step_iff hs

end Kind

end Lib
end BuildingBlocks
