import Mathlib.Data.Int.Interval

/-!
# The free map

`FileHeader::Allocate` and `FileHeader::Deallocate` (`filehdr.cc`) take disk sectors from a
`PersistentBitmap`, NachOS's free map, and give them back to it.  The free map's own code
(`bitmap.cc`, `pbitmap.cc`) is not among the sources.  `Bitmap` models it as NachOS's `Bitmap`
class behaves: a set of marked sectors among `numBits`, where `FindAndSet` marks the lowest clear
sector and returns it (or returns `-1` when none is clear), `NumClear` counts the clear sectors
and `Clear` unmarks one.

`Bitmap.Takes b b' ss` says that `b'` is `b` with the distinct, previously clear sectors `ss`
marked.  It is what a run of `FindAndSet` calls does (`Bitmap.FindAndSet_takes`,
`Bitmap.findSectors_takes`), it composes along a run (`Bitmap.Takes.trans`), and `NumClear` goes
down by the number of sectors taken.  `Bitmap.clearSectors_eq` is what a run of `Clear` calls
does.
-/

namespace NthuOs

/-- Modelled from the spec: `PersistentBitmap` (`bitmap.h`, `pbitmap.h`), which is not among the
sources, as the set of marked sectors among `numBits` sectors. -/
structure Bitmap where
  numBits : Nat
  marked : Finset Int
  marked_lt : ∀ i ∈ marked, 0 ≤ i ∧ i < numBits

namespace Bitmap

@[ext] theorem ext {a b : Bitmap} (hn : a.numBits = b.numBits) (hm : a.marked = b.marked) :
    a = b := by
  cases a; cases b; cases hn; cases hm; rfl

instance : DecidableEq Bitmap := fun a b =>
  decidable_of_iff (a.numBits = b.numBits ∧ a.marked = b.marked)
    ⟨fun h => ext h.1 h.2, fun h => h ▸ ⟨rfl, rfl⟩⟩

/-- Modelled from the spec: `Test(which)`, sector `which` is marked. -/
def Test (b : Bitmap) (which : Int) : Bool := decide (which ∈ b.marked)

/-- Modelled from the spec: `NumClear()`, the number of clear sectors. -/
def NumClear (b : Bitmap) : Int := b.numBits - b.marked.card

/-- Modelled from the spec: `FindAndSet()` marks a clear sector and returns it, or returns `-1`
when none is clear; here, as NachOS's `Bitmap::FindAndSet` does, the clear sector with the
lowest number. -/
def FindAndSet (b : Bitmap) : Int × Bitmap :=
  match h : (List.range b.numBits).find? (fun i : Nat => (i : Int) ∉ b.marked) with
  | some i =>
    (i, ⟨b.numBits, insert (i : Int) b.marked, fun j hj => by
      rcases Finset.mem_insert.1 hj with rfl | hj
      · exact ⟨by omega, by have := List.mem_range.1 (List.mem_of_find?_eq_some h); omega⟩
      · exact b.marked_lt j hj⟩)
  | none => (-1, b)

/-- Modelled from the spec: `Bitmap(numItems)`, a map of `numItems` sectors, all clear. -/
def empty (numItems : Nat) : Bitmap := ⟨numItems, ∅, by simp⟩

/-- Modelled from the spec: `Clear(which)` unmarks sector `which`.  NachOS asserts
`0 ≤ which < numBits`; a failed assertion aborts (`none`). -/
def Clear (b : Bitmap) (which : Int) : Option Bitmap :=
  if 0 ≤ which ∧ which < b.numBits then
    some ⟨b.numBits, b.marked.erase which,
      fun i hi => b.marked_lt i (Finset.mem_of_mem_erase hi)⟩
  else none

/-- `for (int i = 0; i < n; i++) dataSectors[i] = freeMap->FindAndSet();`: the sectors found, in
order, and the map after. -/
def findSectors : Nat → Bitmap → List Int × Bitmap
  | 0, b => ([], b)
  | n + 1, b =>
    let r := b.FindAndSet
    let rest := findSectors n r.2
    (r.1 :: rest.1, rest.2)

/-- `freeMap->Clear(s)` for each sector `s` of `ss`, in order. -/
def clearSectors : List Int → Bitmap → Option Bitmap
  | [], b => some b
  | s :: ss, b => (b.Clear s).bind (clearSectors ss)

/-! ### Marking clear sectors -/

/-- `b'` is `b` with the distinct sectors `ss`, all clear in `b`, marked. -/
structure Takes (b b' : Bitmap) (ss : List Int) : Prop where
  nodup : ss.Nodup
  clear : ∀ s ∈ ss, (0 ≤ s ∧ s < b.numBits) ∧ s ∉ b.marked
  numBits : b'.numBits = b.numBits
  marked : b'.marked = b.marked ∪ ss.toFinset

variable {b b' b'' : Bitmap} {ss ss' : List Int}

theorem Takes.refl (b : Bitmap) : Takes b b [] := ⟨List.nodup_nil, by simp, rfl, by simp⟩

theorem Takes.perm (h : Takes b b' ss) (hp : ss.Perm ss') : Takes b b' ss' :=
  ⟨hp.nodup_iff.1 h.nodup, fun s hs => h.clear s (hp.mem_iff.2 hs), h.numBits,
    by rw [h.marked, List.toFinset_eq_of_perm _ _ hp]⟩

theorem Takes.trans (h : Takes b b' ss) (h' : Takes b' b'' ss') : Takes b b'' (ss ++ ss') := by
  refine ⟨List.nodup_append.2 ⟨h.nodup, h'.nodup, ?_⟩, ?_, h'.numBits.trans h.numBits, ?_⟩
  · intro x hx hy
    exact (h'.clear x hy).2 (by rw [h.marked]; simp [hx])
  · intro s hs
    rcases List.mem_append.1 hs with hs | hs
    · exact h.clear s hs
    · have := h'.clear s hs
      rw [h.numBits, h.marked] at this
      exact ⟨this.1, fun hm => this.2 (Finset.mem_union_left _ hm)⟩
  · rw [h'.marked, h.marked, List.toFinset_append, Finset.union_assoc]

/-- Taking sectors leaves the map as it was exactly when no sector is taken. -/
theorem Takes.eq_iff (h : Takes b b' ss) : b' = b ↔ ss = [] := by
  constructor
  · intro he
    refine List.eq_nil_iff_forall_not_mem.2 fun s hs => (h.clear s hs).2 ?_
    rw [← he, h.marked]
    simp [hs]
  · rintro rfl
    exact ext h.numBits (by simp [h.marked])

theorem marked_subset (b : Bitmap) : b.marked ⊆ Finset.Ico 0 (b.numBits : Int) :=
  fun i hi => Finset.mem_Ico.2 (b.marked_lt i hi)

theorem card_marked_le (b : Bitmap) : b.marked.card ≤ b.numBits := by
  simpa using Finset.card_le_card b.marked_subset

theorem NumClear_nonneg (b : Bitmap) : 0 ≤ b.NumClear := by
  have := b.card_marked_le
  unfold NumClear
  omega

theorem Takes.NumClear (h : Takes b b' ss) : b'.NumClear = b.NumClear - ss.length := by
  have hd : Disjoint b.marked ss.toFinset :=
    Finset.disjoint_left.2 fun s hm hs => (h.clear s (List.mem_toFinset.1 hs)).2 hm
  simp only [Bitmap.NumClear, h.numBits, h.marked, Finset.card_union_of_disjoint hd,
    List.toFinset_card_of_nodup h.nodup]
  omega

/-! ### `FindAndSet` -/

theorem find?_eq_none_iff (b : Bitmap) :
    (List.range b.numBits).find? (fun i : Nat => (i : Int) ∉ b.marked) = none ↔
      b.NumClear = 0 := by
  rw [List.find?_eq_none]
  have hle := b.card_marked_le
  constructor
  · intro h
    have hsub : Finset.Ico 0 (b.numBits : Int) ⊆ b.marked := fun i hi => by
      obtain ⟨h0, hlt⟩ := Finset.mem_Ico.1 hi
      simpa [Int.toNat_of_nonneg h0] using h i.toNat (List.mem_range.2 (by omega))
    have := Finset.card_le_card hsub
    simp only [Int.card_Ico, sub_zero, Int.toNat_natCast] at this
    unfold NumClear
    omega
  · intro h i hi
    by_contra hm
    simp only [decide_eq_true_eq] at hm
    have hsub : b.marked ⊂ Finset.Ico 0 (b.numBits : Int) :=
      (Finset.ssubset_iff_of_subset b.marked_subset).2
        ⟨i, Finset.mem_Ico.2 ⟨by omega, by have := List.mem_range.1 hi; omega⟩, hm⟩
    have := Finset.card_lt_card hsub
    simp only [Int.card_Ico, sub_zero, Int.toNat_natCast] at this
    unfold NumClear at h
    omega

theorem FindAndSet_full (h : b.NumClear = 0) : b.FindAndSet = (-1, b) := by
  have hn := (find?_eq_none_iff b).2 h
  unfold FindAndSet
  split
  · next heq => rw [hn] at heq; cases heq
  · rfl

/-- With a clear sector, `FindAndSet` takes one. -/
theorem FindAndSet_takes (h : 0 < b.NumClear) : Takes b b.FindAndSet.2 [b.FindAndSet.1] := by
  unfold FindAndSet
  split
  · rename_i i hi
    have hm := List.find?_some hi
    simp only [decide_eq_true_eq] at hm
    have hi := List.mem_range.1 (List.mem_of_find?_eq_some hi)
    exact ⟨List.nodup_singleton _, by simpa using ⟨by omega, hm⟩, rfl,
      by simp [Finset.union_comm, Finset.insert_eq]⟩
  · rename_i hi
    rw [(find?_eq_none_iff b).1 hi] at h
    exact absurd h (lt_irrefl 0)

/-- `FindAndSet` returns `-1` exactly on a full map. -/
theorem FindAndSet_fst_eq_iff : b.FindAndSet.1 = -1 ↔ b.NumClear = 0 := by
  refine ⟨fun h => ?_, fun h => by rw [FindAndSet_full h]⟩
  by_contra hc
  have := ((FindAndSet_takes (lt_of_le_of_ne b.NumClear_nonneg (Ne.symm hc))).clear _
    (List.mem_singleton_self _)).1.1
  omega

theorem FindAndSet_of_fst (h : b.FindAndSet.1 = -1) : b.FindAndSet = (-1, b) :=
  FindAndSet_full (FindAndSet_fst_eq_iff.1 h)

theorem NumClear_pos_of_FindAndSet (h : b.FindAndSet.1 ≠ -1) : 0 < b.NumClear :=
  lt_of_le_of_ne b.NumClear_nonneg (Ne.symm (mt FindAndSet_fst_eq_iff.2 h))

/-! ### Runs of `FindAndSet` and of `Clear` -/

/-- With `n` clear sectors, `n` calls of `FindAndSet` take `n` of them. -/
theorem findSectors_takes {n : Nat} (h : n ≤ b.NumClear) :
    (findSectors n b).1.length = n ∧ Takes b (findSectors n b).2 (findSectors n b).1 := by
  induction n generalizing b with
  | zero => exact ⟨rfl, Takes.refl b⟩
  | succ n ih =>
    have ht := FindAndSet_takes (b := b) (by omega)
    obtain ⟨hlen, ht'⟩ := ih (b := b.FindAndSet.2) (by rw [ht.NumClear]; simp; omega)
    exact ⟨by simp [findSectors, hlen], ht.trans ht'⟩

/-- Past `Allocate`'s check that `NumClear()` is not below `n`, its `n` calls of `FindAndSet` all
find a sector. -/
theorem findSectors_takes_of_not_lt {n : Int} (h : ¬ b.NumClear < n) :
    (findSectors n.toNat b).1.length = n.toNat ∧
      Takes b (findSectors n.toNat b).2 (findSectors n.toNat b).1 :=
  findSectors_takes (by have := b.NumClear_nonneg; omega)

/-- `Clear` on sectors in range unmarks exactly them. -/
theorem clearSectors_eq (h : ∀ s ∈ ss, 0 ≤ s ∧ s < b.numBits) :
    ∃ b', clearSectors ss b = some b' ∧ b'.numBits = b.numBits ∧
      b'.marked = b.marked \ ss.toFinset := by
  induction ss generalizing b with
  | nil => exact ⟨b, rfl, rfl, by simp⟩
  | cons s ss ih =>
    let b₁ : Bitmap :=
      ⟨b.numBits, b.marked.erase s, fun i hi => b.marked_lt i (Finset.mem_of_mem_erase hi)⟩
    have hc : b.Clear s = some b₁ := by simp [Clear, h s (List.mem_cons_self _ _), b₁]
    obtain ⟨b', hb', hn, hm⟩ := ih (b := b₁) fun t ht => h t (List.mem_cons_of_mem _ ht)
    refine ⟨b', by simp only [clearSectors, hc, Option.some_bind, hb'], hn, ?_⟩
    rw [hm]
    ext x
    simp only [b₁, Finset.mem_sdiff, Finset.mem_erase, List.toFinset_cons, Finset.mem_insert,
      List.mem_toFinset]
    tauto

end Bitmap

end NthuOs
