import NthuOs.FileSys.Layout

/-!
# What `Allocate` and `Deallocate` leave in the free map

`Allocate` takes every sector it needs from the free map as it goes, header by header, and checks
the count of clear sectors only against the data sectors of the header at hand.  `Deallocate`
clears each header's data sectors and walks on to the next header.

* `sectorsNeeded` counts the sectors a file needs: every header's data sectors and one sector per
  chained header.  `allocate_true_iff_enough`: `Allocate` returns true exactly when the free map
  has that many clear sectors, as its comment says ("Return FALSE if there are not enough free
  blocks"); `allocate_true_uses_sectorsNeeded`: when it does, it takes exactly that many.
* `deallocate_leaves_links_marked`: `Deallocate` after a successful `Allocate` clears the data
  sectors of every header and nothing else.  The sectors `Allocate` took for the chained headers
  (`next_fileheader_sector`) stay marked, so the free map comes back to its state before
  `Allocate` exactly when the file fits in one header.
* `allocate_false_keeps_taken`: a failed `Allocate` does not give back what it took.  The free map
  is left as it was exactly when the first header's own check fails; a failure further down the
  chain leaves the sectors of the earlier headers marked.

What this does **not** say: NachOS's `FileSystem::Create` and `Remove` write the free map back to
disk only on success, so whether a leak in memory reaches the disk depends on the caller, which is
not among the sources.
-/

namespace NthuOs

variable {g : Geometry} {fm fm' : Bitmap} {chain : List FileHeader} {fileSize : Int}

/-! ### How many sectors `Allocate` needs -/

/-- The sectors `Allocate` takes for a file of `fileSize` bytes when it succeeds: each header's
data sectors and, for every header but the last, the sector of the next header. -/
def sectorsNeeded (g : Geometry) (fileSize : Int) : Int :=
  let numBytes := g.headerBytes fileSize
  divRoundUp numBytes g.SectorSize +
    if 0 < fileSize - numBytes then 1 + sectorsNeeded g (fileSize - numBytes) else 0
termination_by fileSize.toNat
decreasing_by exact g.rest_lt (by assumption)

theorem sectorsNeeded_of_rest (hr : 0 < fileSize - g.headerBytes fileSize) :
    sectorsNeeded g fileSize = divRoundUp (g.headerBytes fileSize) g.SectorSize + 1 +
      sectorsNeeded g (fileSize - g.headerBytes fileSize) := by
  rw [sectorsNeeded, if_pos hr, add_assoc]

theorem sectorsNeeded_of_no_rest (hr : ¬ 0 < fileSize - g.headerBytes fileSize) :
    sectorsNeeded g fileSize = divRoundUp (g.headerBytes fileSize) g.SectorSize := by
  rw [sectorsNeeded, if_neg hr, add_zero]

/-- A file needs at least its first header's data sectors. -/
theorem le_sectorsNeeded {fileSize : Int} :
    divRoundUp (g.headerBytes fileSize) g.SectorSize ≤ sectorsNeeded g fileSize := by
  by_cases hr : 0 < fileSize - g.headerBytes fileSize
  · have := divRoundUp_nonneg (g.headerBytes_nonneg hr.le) g.sector_pos
    have := @le_sectorsNeeded (fileSize - g.headerBytes fileSize)
    rw [sectorsNeeded_of_rest hr]
    omega
  · exact (sectorsNeeded_of_no_rest hr).ge
termination_by fileSize.toNat
decreasing_by exact g.rest_lt (by assumption)

theorem sectorsNeeded_nonneg (hfs : 0 ≤ fileSize) : 0 ≤ sectorsNeeded g fileSize :=
  (divRoundUp_nonneg (g.headerBytes_nonneg hfs) g.sector_pos).trans le_sectorsNeeded

/-- **`Allocate` succeeds exactly when the free map has room for the whole file.**  For every
free map and every `fileSize ≥ 0`, `Allocate` returns true if and only if at least
`sectorsNeeded` sectors are clear, whichever header the shortage would show in. -/
theorem allocate_true_iff_enough {fm : Bitmap} {fileSize : Int} (hfs : 0 ≤ fileSize) :
    (Allocate g fm fileSize).1 = true ↔ sectorsNeeded g fileSize ≤ fm.NumClear := by
  have hns := divRoundUp_nonneg (g.headerBytes_nonneg hfs) g.sector_pos
  rcases Allocate_cases g fm fileSize with ⟨hc, he⟩ | ⟨hc, hr, he⟩ | ⟨hc, hr, hst, he⟩ |
      ⟨hc, hr, hne, he⟩ <;> rw [he]
  · -- too few clear sectors for this header's data
    have := @le_sectorsNeeded g fileSize
    simp only [Bool.false_eq_true, false_iff, not_le]
    omega
  · -- the rest of the file fits in this header
    simp only [true_iff, sectorsNeeded_of_no_rest hr]
    omega
  · -- no clear sector left for the next header
    obtain ⟨hlen, ht₁⟩ := Bitmap.findSectors_takes_of_not_lt hc
    have h0 := Bitmap.FindAndSet_fst_eq_iff.1 hst
    rw [ht₁.NumClear, hlen] at h0
    have := sectorsNeeded_nonneg (g := g) hr.le
    simp only [Bool.false_eq_true, false_iff, not_le, sectorsNeeded_of_rest hr]
    omega
  · -- the next header takes the rest
    obtain ⟨hlen, ht₁⟩ := Bitmap.findSectors_takes_of_not_lt hc
    have ht₂ := Bitmap.FindAndSet_takes (Bitmap.NumClear_pos_of_FindAndSet hne)
    rw [allocate_true_iff_enough hr.le, ht₂.NumClear, ht₁.NumClear, hlen,
      sectorsNeeded_of_rest hr]
    simp only [List.length_singleton, Nat.cast_one]
    omega
termination_by fileSize.toNat
decreasing_by exact g.rest_lt (by assumption)

theorem allocate_true_iff_enough_two_bytes :
    0 ≤ (2 : Int) ∧ ((Allocate .unit (.empty 2) 2).1 = true ↔
      sectorsNeeded .unit 2 ≤ (Bitmap.empty 2).NumClear) :=
  ⟨by decide, allocate_true_iff_enough (by decide)⟩

/-- A chain that `Describes` a file has exactly `sectorsNeeded` sectors. -/
theorem Describes.length_sectors (hD : Describes g fileSize chain) :
    ((sectors chain).length : Int) = sectorsNeeded g fileSize := by
  induction hD with
  | @last fileSize hdr h0 hle hH hn =>
    have hr : ¬ 0 < fileSize - g.headerBytes fileSize := by rw [g.headerBytes_of_le hle]; omega
    have := divRoundUp_nonneg h0 g.sector_pos
    rw [sectorsNeeded_of_no_rest hr, g.headerBytes_of_le hle]
    simp [sectors, FileHeader.link, hn, hH.length_data h0 hle]
    omega
  | @link fileSize hdr next hlt hH hn _ ih =>
    have hr : 0 < fileSize - g.headerBytes fileSize := by rw [g.headerBytes_of_lt hlt]; omega
    have := g.direct_pos
    rw [sectorsNeeded_of_rest hr, g.headerBytes_of_lt hlt, ← ih, g.divRoundUp_MaxFileSize]
    simp [sectors, FileHeader.link, hn, hH.length_data g.MaxFileSize_pos.le le_rfl,
      g.divRoundUp_MaxFileSize]
    omega

/-- **What a successful `Allocate` uses.**  For every free map and every `fileSize ≥ 0` for which
`Allocate` returns true, the free map has exactly `sectorsNeeded` fewer clear sectors, and the
chain has `divRoundUp fileSize MaxFileSize` headers (one for an empty file), as `find_length`
counts them. -/
theorem allocate_true_uses_sectorsNeeded (hfs : 0 ≤ fileSize)
    (h : Allocate g fm fileSize = (true, chain, fm')) :
    fm'.NumClear = fm.NumClear - sectorsNeeded g fileSize ∧
      find_length chain = max 1 (divRoundUp fileSize g.MaxFileSize) := by
  obtain ⟨hD, ht⟩ := Allocate_true hfs h
  exact ⟨by rw [ht.NumClear, hD.length_sectors], hD.find_length_eq⟩

theorem allocate_true_uses_sectorsNeeded_two_headers :
    Allocate .unit (.empty 3) 2 =
        (true, [⟨1, 1, [0], 1⟩, ⟨1, 1, [2], -1⟩], (Allocate .unit (.empty 3) 2).2.2) ∧
      (Allocate .unit (.empty 3) 2).2.2.NumClear =
        (Bitmap.empty 3).NumClear - sectorsNeeded .unit 2 ∧
      find_length [⟨1, 1, [0], 1⟩, ⟨1, 1, [2], -1⟩] =
        max 1 (divRoundUp 2 Geometry.unit.MaxFileSize) :=
  ⟨Allocate_unit_two, allocate_true_uses_sectorsNeeded (by decide) Allocate_unit_two⟩

/-! ### `Deallocate` after a successful `Allocate` -/

/-- On a chain that `Describes` a file, `Deallocate` clears the chain's data sectors and nothing
else. -/
theorem Describes.deallocate {b : Bitmap} (hD : Describes g fileSize chain)
    (hr : ∀ s ∈ dataOf chain, 0 ≤ s ∧ s < b.numBits) :
    ∃ b', Deallocate chain b = some b' ∧ b'.numBits = b.numBits ∧
      b'.marked = b.marked \ (dataOf chain).toFinset := by
  induction hD generalizing b with
  | @last _ hdr _ _ _ hn =>
    obtain ⟨b₁, hb, hnb, hm⟩ := Bitmap.clearSectors_eq (by simpa [dataOf] using hr)
    have hb' : Bitmap.clearSectors (hdr.dataSectors.take hdr.numSectors.toNat) b = some b₁ := hb
    exact ⟨b₁, by simp [Deallocate, hb', hn], hnb, by simpa [dataOf] using hm⟩
  | @link _ hdr _ _ _ hn _ ih =>
    obtain ⟨b₁, hb, hnb, hm⟩ :=
      Bitmap.clearSectors_eq fun s hs => hr s (List.mem_append_left _ hs)
    have hb' : Bitmap.clearSectors (hdr.dataSectors.take hdr.numSectors.toNat) b = some b₁ := hb
    obtain ⟨b', hd, hnb', hm'⟩ :=
      ih (b := b₁) fun s hs => hnb ▸ hr s (List.mem_append_right _ hs)
    refine ⟨b', by simp [Deallocate, hb', hn, hd], hnb'.trans hnb, ?_⟩
    rw [hm', hm, sdiff_sdiff_left, dataOf, List.toFinset_append]
    rfl

/-- A chain has chained headers exactly when the file is larger than one header holds. -/
theorem Describes.links_eq_nil_iff (hD : Describes g fileSize chain) :
    links chain = [] ↔ fileSize ≤ g.MaxFileSize := by
  cases hD with
  | last _ hle _ hn => simp [links, FileHeader.link, hn, hle]
  | link hlt _ hn _ => simp [links, FileHeader.link, hn, hlt]

/-- **`Deallocate` does not give back the sectors of the chained headers.**  For every free map
and every `fileSize ≥ 0` for which `Allocate` returns true, `Deallocate` on the chain succeeds,
and the free map it leaves is the one before `Allocate` with the chain's `next_fileheader_sector`
sectors marked.  It is the map before `Allocate` exactly when the file fits in one header. -/
theorem deallocate_leaves_links_marked (hfs : 0 ≤ fileSize)
    (h : Allocate g fm fileSize = (true, chain, fm')) :
    ∃ fm'', Deallocate chain fm' = some fm'' ∧ fm.Takes fm'' (links chain) ∧
      (fm'' = fm ↔ fileSize ≤ g.MaxFileSize) := by
  obtain ⟨hD, ht⟩ := Allocate_true hfs h
  have hp := ht.perm (sectors_perm chain)
  obtain ⟨-, hnl, hdis⟩ := List.nodup_append.1 hp.nodup
  have hfree : ∀ x ∈ dataOf chain, x ∉ fm.marked := fun x hx =>
    (hp.clear x (List.mem_append_left _ hx)).2
  obtain ⟨fm'', hd, hn, hm⟩ := hD.deallocate (b := fm') fun s hs =>
    hp.numBits ▸ (hp.clear s (List.mem_append_left _ hs)).1
  have hl : fm.Takes fm'' (links chain) := by
    refine ⟨hnl, fun s hs => hp.clear s (List.mem_append_right _ hs), hn.trans hp.numBits, ?_⟩
    rw [hm, hp.marked]
    ext x
    simp only [Finset.mem_sdiff, Finset.mem_union, List.mem_toFinset, List.mem_append]
    constructor
    · rintro ⟨h | h | h, hn⟩
      exacts [.inl h, absurd h hn, .inr h]
    · rintro (h | h)
      · exact ⟨.inl h, fun hd => hfree x hd h⟩
      · exact ⟨.inr (.inr h), fun hd => hdis hd h⟩
  exact ⟨fm'', hd, hl, hl.eq_iff.trans hD.links_eq_nil_iff⟩

theorem deallocate_leaves_links_marked_two_headers :
    Allocate .unit (.empty 3) 2 =
        (true, [⟨1, 1, [0], 1⟩, ⟨1, 1, [2], -1⟩], (Allocate .unit (.empty 3) 2).2.2) ∧
      ∃ fm'', Deallocate [⟨1, 1, [0], 1⟩, ⟨1, 1, [2], -1⟩]
            (Allocate .unit (.empty 3) 2).2.2 = some fm'' ∧
          (Bitmap.empty 3).Takes fm'' (links [⟨1, 1, [0], 1⟩, ⟨1, 1, [2], -1⟩]) ∧
        (fm'' = .empty 3 ↔ (2 : Int) ≤ Geometry.unit.MaxFileSize) :=
  ⟨Allocate_unit_two, deallocate_leaves_links_marked (by decide) Allocate_unit_two⟩

/-! ### A failed `Allocate` -/

/-- Past its check, a header of a file that does not fit in it takes at least one data sector. -/
theorem findSectors_ne_nil (hr : 0 < fileSize - g.headerBytes fileSize)
    (hc : ¬ fm.NumClear < divRoundUp (g.headerBytes fileSize) g.SectorSize) :
    (Bitmap.findSectors (divRoundUp (g.headerBytes fileSize) g.SectorSize).toNat fm).1 ≠ [] := by
  rw [← List.length_pos, (Bitmap.findSectors_takes_of_not_lt hc).1, (g.headerBytes_of_rest hr).1,
    g.divRoundUp_MaxFileSize]
  have := g.direct_pos
  omega

/-- A failed `Allocate` has marked distinct, previously clear sectors, none exactly when the first
header's own check failed. -/
theorem Allocate_false {fm fm' : Bitmap} {chain : List FileHeader} {fileSize : Int}
    (h : Allocate g fm fileSize = (false, chain, fm')) :
    ∃ ss, fm.Takes fm' ss ∧
      (ss = [] ↔ fm.NumClear < divRoundUp (g.headerBytes fileSize) g.SectorSize) := by
  rcases Allocate_cases g fm fileSize with ⟨hc, he⟩ | ⟨-, -, he⟩ | ⟨hc, hr, hst, he⟩ |
      ⟨hc, hr, hne, he⟩ <;> rw [he] at h <;>
    simp only [Prod.mk.injEq, Bool.true_eq_false, false_and, true_and] at h
  · -- nothing taken
    obtain ⟨-, rfl⟩ := h
    exact ⟨[], Bitmap.Takes.refl fm, by simp [hc]⟩
  · -- this header's data sectors taken
    obtain ⟨-, rfl⟩ := h
    rw [Bitmap.FindAndSet_of_fst hst]
    exact ⟨_, (Bitmap.findSectors_takes_of_not_lt hc).2, by simp [findSectors_ne_nil hr hc, hc]⟩
  · -- this header's data sectors, the next header's sector, and what the rest took
    obtain ⟨h1, -, rfl⟩ := h
    obtain ⟨ss, ht₃, -⟩ := Allocate_false (Prod.ext h1 rfl)
    have ht₂ := Bitmap.FindAndSet_takes (Bitmap.NumClear_pos_of_FindAndSet hne)
    exact ⟨_, ((Bitmap.findSectors_takes_of_not_lt hc).2.trans ht₂).trans ht₃,
      by simp [findSectors_ne_nil hr hc, hc]⟩
termination_by fileSize.toNat
decreasing_by exact g.rest_lt (by assumption)

/-- **A failed `Allocate` keeps what it took.**  For every free map and every `fileSize` for which
`Allocate` returns false, the free map after is the one before with distinct, previously
clear sectors marked; it is the map before exactly when the first header's own check of
`NumClear` failed. -/
theorem allocate_false_keeps_taken (h : Allocate g fm fileSize = (false, chain, fm')) :
    ∃ ss, fm.Takes fm' ss ∧
      (fm' = fm ↔ fm.NumClear < divRoundUp (g.headerBytes fileSize) g.SectorSize) := by
  obtain ⟨ss, ht, hiff⟩ := Allocate_false h
  exact ⟨ss, ht, ht.eq_iff.trans hiff⟩

/-- A two-byte file on an empty disk of two sectors: the first header takes sector 0 and sector 1
for the next header, which then finds no clear sector; both stay marked. -/
theorem Allocate_unit_two_full :
    Allocate .unit (.empty 2) 2 =
      (false, [⟨1, 1, [0], 1⟩, ⟨1, 1, [-1], -1⟩], (Allocate .unit (.empty 2) 2).2.2) ∧
      (Allocate .unit (.empty 2) 2).2.2.marked = {0, 1} := by
  rw [Allocate]
  simp only []
  rw [Allocate]
  decide

theorem allocate_false_keeps_taken_second_header :
    Allocate .unit (.empty 2) 2 =
        (false, [⟨1, 1, [0], 1⟩, ⟨1, 1, [-1], -1⟩], (Allocate .unit (.empty 2) 2).2.2) ∧
      (Allocate .unit (.empty 2) 2).2.2.marked = {0, 1} ∧
      ∃ ss, (Bitmap.empty 2).Takes (Allocate .unit (.empty 2) 2).2.2 ss ∧
        ((Allocate .unit (.empty 2) 2).2.2 = .empty 2 ↔
          (Bitmap.empty 2).NumClear <
            divRoundUp (Geometry.unit.headerBytes 2) Geometry.unit.SectorSize) :=
  ⟨Allocate_unit_two_full.1, Allocate_unit_two_full.2,
    allocate_false_keeps_taken Allocate_unit_two_full.1⟩

end NthuOs
