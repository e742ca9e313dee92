import NthuOs.FileSys.Layout

/-!
# `ByteToSector` reads one flat table

`ByteToSector` follows `next_fileheader` once for every `NumDirect` blocks of the offset.  When
every header has its `NumDirect` entries, that is a lookup in one table: the `dataSectors` of all
headers, one after the other (`table`), at the offset's block `offset / SectorSize`, in C's
division, which truncates toward zero.

* `byteToSector_eq_table`: for every such chain and every offset, `ByteToSector` returns the
  table's entry at the offset's block, and `none` for a block past the table (a NULL
  `next_fileheader`) or a negative one (an index before `dataSectors`).
* `Allocate_padded`: every header `Allocate` builds, whatever it returns, has its `NumDirect`
  entries, and those past its data sectors keep the `-1` that `FileHeader()` gave them.
* `allocate_byteToSector_table`: so for a file `Allocate` built, the table is the file's data
  sectors followed by `-1` entries up to the end of the last header.

Read at the offsets outside the file, this says what `ByteToSector` does there: up to the end of
the file's last sector it still returns that sector; from there to the end of the last header it
returns `-1`, not a sector; past the last header it dereferences a NULL `next_fileheader`; and an
offset in `(-SectorSize, 0)` lands in block `0`, the file's first data sector.

The comment on `FileHeader()` says that `Allocate` or `FetchFrom` sets every field and that the
constructor only keeps valgrind happy.  `Allocate` sets only the first `numSectors` entries of
`dataSectors`, and `next_fileheader_sector` only for a file of more than `MaxFileSize` bytes:
`ByteToSector` and `Deallocate` read the `-1` values the constructor left in the others.
-/

namespace NthuOs

/-- The entries of every header of a chain, the first header's first. -/
def table (chain : List FileHeader) : List Int := chain.flatMap FileHeader.dataSectors

/-- The entries of a header past its data sectors are `-1`, and it has at most `NumDirect` data
sectors. -/
def FileHeader.Padded (g : Geometry) (hdr : FileHeader) : Prop :=
  hdr.dataSectors = hdr.data ++ List.replicate (g.NumDirect.toNat - hdr.data.length) (-1) ∧
    hdr.data.length ≤ g.NumDirect.toNat

variable {g : Geometry}

theorem FileHeader.Padded.length {hdr : FileHeader} (h : hdr.Padded g) :
    hdr.dataSectors.length = g.NumDirect.toNat := by
  rw [h.1, List.length_append, List.length_replicate]
  have := h.2
  omega

/-! ### The lookup -/

/-- An offset whose block is past the first header's `NumDirect` is not negative. -/
theorem nonneg_of_le_tdiv {o : Int} (h : g.NumDirect ≤ o.tdiv g.SectorSize) : 0 ≤ o := by
  by_contra hn
  have := Int.tdiv_nonneg (a := -o) (by omega) g.sector_pos.le
  rw [Int.neg_tdiv] at this
  have := g.direct_pos
  omega

/-- `ByteToSector`'s step to the next header: `MaxFileSize` bytes back is `NumDirect` blocks
back. -/
theorem tdiv_sub_MaxFileSize {o : Int} (h : g.NumDirect ≤ o.tdiv g.SectorSize) :
    (o - g.MaxFileSize).tdiv g.SectorSize = o.tdiv g.SectorSize - g.NumDirect := by
  have hS := g.sector_pos
  have h0 := nonneg_of_le_tdiv h
  rw [Int.tdiv_eq_ediv h0 hS.le] at h ⊢
  have hm : g.MaxFileSize ≤ o := (Int.le_ediv_iff_mul_le hS).1 h
  have := Int.add_mul_ediv_right o (-g.NumDirect) hS.ne'
  rw [Int.neg_mul, ← sub_eq_add_neg] at this
  rw [Int.tdiv_eq_ediv (by omega) hS.le, Geometry.MaxFileSize, this, sub_eq_add_neg]

/-- **`ByteToSector` is a lookup in the chain's table.**  For every chain whose headers have
`NumDirect` entries each, and every offset, `ByteToSector` returns the table's entry at the
offset's block; `none` when the block is past the table or negative. -/
theorem byteToSector_eq_table {chain : List FileHeader}
    (hl : ∀ hdr ∈ chain, hdr.dataSectors.length = g.NumDirect.toNat) (o : Int) :
    ByteToSector g chain o =
      if 0 ≤ o.tdiv g.SectorSize then (table chain)[(o.tdiv g.SectorSize).toNat]? else none := by
  induction chain generalizing o with
  | nil => simp [ByteToSector, table]
  | cons hdr next ih =>
    have hlen := hl hdr (List.mem_cons_self _ _)
    have hN := g.direct_pos
    simp only [ByteToSector, table, List.flatMap_cons]
    by_cases hb : g.NumDirect ≤ o.tdiv g.SectorSize
    · rw [if_pos hb, ih (fun h hh => hl h (List.mem_cons_of_mem _ hh)), tdiv_sub_MaxFileSize hb,
        if_pos (by omega), if_pos (by omega), List.getElem?_append_right (by omega), table]
      congr 2
      omega
    · rw [if_neg hb]
      split_ifs
      · rw [List.getElem?_append_left (by omega)]
      · rfl

/-! ### The table of a chain `Allocate` built -/

theorem Geometry.headerBytes_le (g : Geometry) (fileSize : Int) :
    g.headerBytes fileSize ≤ g.MaxFileSize := by
  unfold Geometry.headerBytes
  split <;> omega

/-- A header whose first entries are the sectors `found` and whose other entries are the `-1`
of `FileHeader()`. -/
theorem padded_of_found {found : List Int} {ns : Int} (hlen : found.length = ns.toNat)
    (hle : found.length ≤ g.NumDirect.toNat) (nb next : Int) :
    (⟨nb, ns, found ++ (List.replicate g.NumDirect.toNat (-1)).drop found.length, next⟩ :
      FileHeader).Padded g := by
  have hd : (⟨nb, ns, found ++ (List.replicate g.NumDirect.toNat (-1)).drop found.length, next⟩ :
      FileHeader).data = found := by
    rw [FileHeader.data, ← hlen, List.take_left]
  rw [FileHeader.Padded, hd, List.drop_replicate]
  exact ⟨rfl, hle⟩

/-- Every header `Allocate` builds, whatever it returns, is `Padded`. -/
theorem Allocate_padded {fm : Bitmap} {fileSize : Int} (hfs : 0 ≤ fileSize) :
    ∀ hdr ∈ (Allocate g fm fileSize).2.1, hdr.Padded g := by
  have hb := g.headerBytes_nonneg hfs
  have hns := divRoundUp_nonneg hb g.sector_pos
  have hle : divRoundUp (g.headerBytes fileSize) g.SectorSize ≤ g.NumDirect :=
    divRoundUp_le hb g.sector_pos (g.headerBytes_le fileSize)
  rcases Allocate_cases g fm fileSize with ⟨-, he⟩ | ⟨hc, -, he⟩ | ⟨hc, -, -, he⟩ |
      ⟨hc, hr, -, he⟩ <;> rw [he]
  · -- too few clear sectors: every entry is `-1`
    simp only [List.mem_singleton, forall_eq]
    refine ⟨?_, (List.length_take_le' _ _).trans (List.length_replicate _ _).le⟩
    simp only [FileHeader.data, List.take_replicate, List.length_replicate,
      List.append_replicate_replicate]
    congr 1
    omega
  all_goals
    have hf := (Bitmap.findSectors_takes_of_not_lt hc).1
    have hpad := padded_of_found (g := g) hf (by omega)
  · simpa only [List.mem_singleton, forall_eq] using hpad _ _
  · simpa only [List.mem_singleton, forall_eq] using hpad _ _
  · intro hdr hmem
    rcases List.mem_cons.1 hmem with rfl | hmem
    · exact hpad _ _
    · exact Allocate_padded hr.le hdr hmem
termination_by fileSize.toNat
decreasing_by exact g.rest_lt (by assumption)

/-- On a chain that `Describes` a file, with its headers `Padded`, the table is the file's data
sectors followed by `-1` up to the end of the last header. -/
theorem Describes.table_eq {fileSize : Int} {chain : List FileHeader}
    (hD : Describes g fileSize chain) (hp : ∀ hdr ∈ chain, hdr.Padded g) :
    table chain = dataOf chain ++
      List.replicate (chain.length * g.NumDirect.toNat - (dataOf chain).length) (-1) := by
  induction hD with
  | @last _ hdr _ _ _ _ =>
    rw [table, List.flatMap_cons, List.flatMap_nil, List.append_nil,
      (hp hdr (List.mem_singleton_self _)).1, dataOf, dataOf, List.append_nil,
      List.length_singleton, Nat.one_mul]
  | @link _ hdr next _ hH _ _ ih =>
    have hlen := hH.length_data g.MaxFileSize_pos.le le_rfl
    rw [g.divRoundUp_MaxFileSize] at hlen
    have he := (hp hdr (List.mem_cons_self _ _)).1
    rw [hlen, Nat.sub_self, List.replicate_zero, List.append_nil] at he
    rw [table, List.flatMap_cons, ← table, ih fun h hh => hp h (List.mem_cons_of_mem _ hh), he,
      dataOf, List.append_assoc, List.length_cons, List.length_append, hlen, Nat.succ_mul]
    congr 3
    omega

/-- **`ByteToSector` on a file `Allocate` built, at every offset.**  For every free map and every
`fileSize ≥ 0` for which `Allocate` returns true, and every offset, `ByteToSector` returns the
entry at the offset's block `offset / SectorSize` (C's division) of the file's data sectors
followed by `-1` entries up to the end of the last header, and `none` past them or at a negative
block. -/
theorem allocate_byteToSector_table {fm fm' : Bitmap} {fileSize : Int} {chain : List FileHeader}
    (hfs : 0 ≤ fileSize) (h : Allocate g fm fileSize = (true, chain, fm')) (o : Int) :
    ByteToSector g chain o =
      if 0 ≤ o.tdiv g.SectorSize then
        (dataOf chain ++ List.replicate (chain.length * g.NumDirect.toNat - (dataOf chain).length)
          (-1))[(o.tdiv g.SectorSize).toNat]?
      else none := by
  have hp : ∀ hdr ∈ chain, hdr.Padded g := by
    simpa only [h] using @Allocate_padded g fm fileSize hfs
  rw [byteToSector_eq_table (fun hdr hh => (hp hdr hh).length) o,
    (Allocate_true hfs h).1.table_eq hp]

theorem allocate_byteToSector_table_two_headers :
    Allocate .unit (.empty 3) 2 =
        (true, [⟨1, 1, [0], 1⟩, ⟨1, 1, [2], -1⟩], (Allocate .unit (.empty 3) 2).2.2) ∧
      ByteToSector .unit [⟨1, 1, [0], 1⟩, ⟨1, 1, [2], -1⟩] 5 =
        if 0 ≤ (5 : Int).tdiv Geometry.unit.SectorSize then
          (dataOf [⟨1, 1, [0], 1⟩, ⟨1, 1, [2], -1⟩] ++
            List.replicate (2 * Geometry.unit.NumDirect.toNat -
              (dataOf [⟨1, 1, [0], 1⟩, ⟨1, 1, [2], -1⟩]).length)
              (-1))[((5 : Int).tdiv Geometry.unit.SectorSize).toNat]?
        else none :=
  ⟨Allocate_unit_two, allocate_byteToSector_table (by decide) Allocate_unit_two 5⟩

end NthuOs
