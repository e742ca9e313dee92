import NthuOs.FileSys.FileHeader
import Mathlib.Tactic.Linarith

/-!
# The layout `Allocate` builds

`Describes g fileSize chain` says how a chain lays out a file of `fileSize` bytes: every header
but the last holds `MaxFileSize` bytes in `NumDirect` sectors and names the sector of the next
header; the last holds the rest.  `sectors chain` lists the sectors the chain uses in the order
`Allocate` takes them: each header's data sectors, then the sector of its next header.

* `Allocate_true`: when `Allocate` returns true, the chain `Describes` the file and the free map
  after is the one before with exactly `sectors chain` marked, all of them clear before and no
  two the same (`Bitmap.Takes`).
* `Describes.find_size_eq`, `Describes.find_length_eq` and `Describes.byteToSector`: on such a
  chain `find_size` is the file size, `find_length` is `divRoundUp fileSize MaxFileSize` (one for
  an empty file), and `ByteToSector` sends each offset of the file to the data sector of its
  `SectorSize` block, counting the blocks of all headers in order (`dataOf`).
* `allocate_byteToSector` puts them together.

The arithmetic of `divRoundUp` comes first: for `n ≥ 0` it is `n / s` rounded up.
-/

namespace NthuOs

/-! ### `divRoundUp` -/

section DivRoundUp

variable {n s : Int}

theorem divRoundUp_bounds (hn : 0 ≤ n) (hs : 0 < s) :
    (divRoundUp n s - 1) * s < n ∧ n ≤ divRoundUp n s * s := by
  have hq := Int.ediv_add_emod n s
  have hr0 := Int.emod_nonneg n hs.ne'
  have hrs := Int.emod_lt_of_pos n hs
  rw [divRoundUp, Int.tdiv_eq_ediv hn hs.le, Int.tmod_eq_emod hn hs.le]
  split <;> constructor <;> linarith

theorem divRoundUp_nonneg (hn : 0 ≤ n) (hs : 0 < s) : 0 ≤ divRoundUp n s :=
  nonneg_of_mul_nonneg_left (hn.trans (divRoundUp_bounds hn hs).2) hs

theorem divRoundUp_le {N : Int} (hn : 0 ≤ n) (hs : 0 < s) (h : n ≤ N * s) :
    divRoundUp n s ≤ N := by
  have := Int.lt_of_mul_lt_mul_right ((divRoundUp_bounds hn hs).1.trans_le h) hs.le
  omega

theorem divRoundUp_mul {N : Int} (hN : 0 ≤ N) (hs : 0 < s) : divRoundUp (N * s) s = N :=
  le_antisymm (divRoundUp_le (Int.mul_nonneg hN hs.le) hs le_rfl)
    (Int.le_of_mul_le_mul_right (divRoundUp_bounds (Int.mul_nonneg hN hs.le) hs).2 hs)

theorem ediv_lt_divRoundUp {o : Int} (ho : 0 ≤ o) (h : o < n) (hs : 0 < s) :
    o / s < divRoundUp n s :=
  (Int.ediv_lt_iff_lt_mul hs).2 (h.trans_le (divRoundUp_bounds (ho.trans h.le) hs).2)

theorem divRoundUp_pos (hn : 0 < n) (hs : 0 < s) : 0 < divRoundUp n s := by
  have := ediv_lt_divRoundUp le_rfl hn hs
  rwa [Int.zero_ediv] at this

/-- `divRoundUp n s` is the one `d` with `(d - 1) * s < n ≤ d * s`. -/
theorem divRoundUp_eq_of_bounds {d : Int} (hn : 0 ≤ n) (hs : 0 < s) (h₁ : (d - 1) * s < n)
    (h₂ : n ≤ d * s) : divRoundUp n s = d := by
  have := Int.lt_of_mul_lt_mul_right (h₁.trans_le (divRoundUp_bounds hn hs).2) hs.le
  have := divRoundUp_le hn hs h₂
  omega

/-- Taking one block of `s` off `n` takes one off `divRoundUp n s`. -/
theorem divRoundUp_sub_add (h : s ≤ n) (hs : 0 < s) :
    divRoundUp (n - s) s + 1 = divRoundUp n s := by
  obtain ⟨b₁, b₂⟩ := divRoundUp_bounds (n := n - s) (by omega) hs
  exact (divRoundUp_eq_of_bounds (by omega) hs (by linarith) (by linarith)).symm

end DivRoundUp

namespace Geometry

variable (g : Geometry)

theorem divRoundUp_MaxFileSize : divRoundUp g.MaxFileSize g.SectorSize = g.NumDirect :=
  divRoundUp_mul g.direct_pos.le g.sector_pos

theorem headerBytes_nonneg {fileSize : Int} (h : 0 ≤ fileSize) :
    0 ≤ g.headerBytes fileSize := by
  have := g.MaxFileSize_pos
  unfold headerBytes
  split <;> omega

theorem headerBytes_of_le {fileSize : Int} (h : fileSize ≤ g.MaxFileSize) :
    g.headerBytes fileSize = fileSize := by
  unfold headerBytes
  split <;> omega

theorem headerBytes_of_lt {fileSize : Int} (h : g.MaxFileSize < fileSize) :
    g.headerBytes fileSize = g.MaxFileSize :=
  if_pos h.le

/-- A header holds `MaxFileSize` bytes exactly when more than `MaxFileSize` bytes are left. -/
theorem headerBytes_of_rest {fileSize : Int} (h : 0 < fileSize - g.headerBytes fileSize) :
    g.headerBytes fileSize = g.MaxFileSize ∧ g.MaxFileSize < fileSize := by
  unfold headerBytes at *
  split at * <;> omega

theorem headerBytes_of_no_rest {fileSize : Int} (h : ¬ 0 < fileSize - g.headerBytes fileSize) :
    g.headerBytes fileSize = fileSize ∧ fileSize ≤ g.MaxFileSize := by
  unfold headerBytes at *
  split at * <;> omega

end Geometry

/-! ### Chains -/

namespace FileHeader

/-- The data sectors of a header: the first `numSectors` entries of `dataSectors`. -/
def data (hdr : FileHeader) : List Int := hdr.dataSectors.take hdr.numSectors.toNat

/-- The sector of the next header, if there is one. -/
def link (hdr : FileHeader) : List Int :=
  if hdr.next_fileheader_sector = -1 then [] else [hdr.next_fileheader_sector]

/-- `hdr` holds `n` bytes in `divRoundUp n SectorSize` sectors, with all `NumDirect` entries. -/
structure Holds (g : Geometry) (n : Int) (hdr : FileHeader) : Prop where
  numBytes : hdr.numBytes = n
  numSectors : hdr.numSectors = divRoundUp n g.SectorSize
  length : hdr.dataSectors.length = g.NumDirect.toNat

variable {g : Geometry} {n : Int} {hdr : FileHeader}

/-- A header holding `n ≤ MaxFileSize` bytes has `divRoundUp n SectorSize` data sectors. -/
theorem Holds.length_data (hH : hdr.Holds g n) (h0 : 0 ≤ n) (hn : n ≤ g.MaxFileSize) :
    hdr.data.length = (divRoundUp n g.SectorSize).toNat := by
  have := divRoundUp_le h0 g.sector_pos hn
  have := divRoundUp_nonneg h0 g.sector_pos
  simp only [data, List.length_take, hH.numSectors, hH.length]
  omega

theorem getElem?_data {i : Nat} (hi : i < hdr.data.length) : hdr.data[i]? = hdr.dataSectors[i]? :=
  List.getElem?_take_of_lt (by simp only [data, List.length_take] at hi; omega)

end FileHeader

/-- `chain` lays out a file of `fileSize` bytes as `Allocate` does. -/
inductive Describes (g : Geometry) : Int → List FileHeader → Prop
  /-- The last header holds what is left, at most `MaxFileSize` bytes, and has no next. -/
  | last {fileSize : Int} {hdr : FileHeader} : 0 ≤ fileSize → fileSize ≤ g.MaxFileSize →
      hdr.Holds g fileSize → hdr.next_fileheader_sector = -1 → Describes g fileSize [hdr]
  /-- Any other header holds `MaxFileSize` bytes and names the sector of the next. -/
  | link {fileSize : Int} {hdr : FileHeader} {next : List FileHeader} :
      g.MaxFileSize < fileSize → hdr.Holds g g.MaxFileSize →
      hdr.next_fileheader_sector ≠ -1 → Describes g (fileSize - g.MaxFileSize) next →
      Describes g fileSize (hdr :: next)

/-- The sectors of a chain in the order `Allocate` takes them. -/
def sectors : List FileHeader → List Int
  | [] => []
  | hdr :: next => hdr.data ++ hdr.link ++ sectors next

/-- The data sectors of a chain, block by block through the file. -/
def dataOf : List FileHeader → List Int
  | [] => []
  | hdr :: next => hdr.data ++ dataOf next

/-- The sectors that hold the chained headers. -/
def links : List FileHeader → List Int
  | [] => []
  | hdr :: next => hdr.link ++ links next

theorem sectors_perm (chain : List FileHeader) :
    (sectors chain).Perm (dataOf chain ++ links chain) := by
  induction chain with
  | nil => exact List.Perm.refl _
  | cons hdr next ih =>
    refine List.perm_iff_count.2 fun a => ?_
    have := List.perm_iff_count.1 ih a
    simp only [sectors, dataOf, links, List.count_append] at this ⊢
    omega

/-! ### What `Allocate` builds when it succeeds -/

variable {g : Geometry}

/-- **A successful `Allocate`.**  The chain lays the file out as `Describes` says, and the free
map after is the one before with the chain's sectors, all clear before and pairwise distinct,
marked. -/
theorem Allocate_true {fm fm' : Bitmap} {chain : List FileHeader} {fileSize : Int}
    (hfs : 0 ≤ fileSize) (h : Allocate g fm fileSize = (true, chain, fm')) :
    Describes g fileSize chain ∧ fm.Takes fm' (sectors chain) := by
  have hns := divRoundUp_nonneg (g.headerBytes_nonneg hfs) g.sector_pos
  rcases Allocate_cases g fm fileSize with ⟨-, he⟩ | ⟨hc, hr, he⟩ | ⟨-, -, -, he⟩ |
      ⟨hc, hr, hne, he⟩ <;> rw [he] at h <;>
    simp only [Prod.mk.injEq, Bool.false_eq_true, false_and, true_and] at h
  · -- the rest of the file fits in this header
    obtain ⟨rfl, rfl⟩ := h
    obtain ⟨hlen, ht₁⟩ := Bitmap.findSectors_takes_of_not_lt hc
    obtain ⟨hnb, hle⟩ := g.headerBytes_of_no_rest hr
    have hle' : divRoundUp (g.headerBytes fileSize) g.SectorSize ≤ g.NumDirect := by
      rw [hnb]
      exact divRoundUp_le hfs g.sector_pos hle
    have hl : (Bitmap.findSectors (divRoundUp (g.headerBytes fileSize) g.SectorSize).toNat
        fm).1.length ≤ g.NumDirect.toNat := by omega
    refine ⟨.last hfs hle ⟨hnb, by rw [hnb], by
      simp only [List.length_append, List.length_drop, List.length_replicate]; omega⟩ rfl, ?_⟩
    simpa [sectors, FileHeader.data, FileHeader.link, List.take_left' hlen] using ht₁
  · -- a next header for the rest
    obtain ⟨h1, rfl, rfl⟩ := h
    obtain ⟨hlen, ht₁⟩ := Bitmap.findSectors_takes_of_not_lt hc
    obtain ⟨hnb, hlt⟩ := g.headerBytes_of_rest hr
    have hpos := Bitmap.NumClear_pos_of_FindAndSet hne
    obtain ⟨hD, ht₃⟩ := Allocate_true hr.le (Prod.ext h1 rfl)
    simp only [hnb, g.divRoundUp_MaxFileSize] at hlen ht₁ hne hpos hD ht₃ ⊢
    refine ⟨.link hlt ⟨rfl, g.divRoundUp_MaxFileSize.symm, by simp [hlen]⟩ hne hD, ?_⟩
    simp only [sectors, FileHeader.data, FileHeader.link, if_neg hne, List.take_left' hlen]
    exact (ht₁.trans (Bitmap.FindAndSet_takes hpos)).trans ht₃
termination_by fileSize.toNat
decreasing_by exact g.rest_lt (by assumption)

/-! ### Reading the chain back -/

variable {fileSize : Int} {chain : List FileHeader}

theorem Describes.find_size_eq (hD : Describes g fileSize chain) : find_size chain = fileSize := by
  induction hD with
  | last _ _ hH _ => simp [find_size, FileHeader.FileLength, hH.numBytes]
  | link _ hH _ _ ih => simp only [find_size, FileHeader.FileLength, hH.numBytes, ih]; omega

/-- The chain has `divRoundUp fileSize MaxFileSize` headers, and one for an empty file. -/
theorem Describes.find_length_eq (hD : Describes g fileSize chain) :
    find_length chain = max 1 (divRoundUp fileSize g.MaxFileSize) := by
  have hM := g.MaxFileSize_pos
  induction hD with
  | last h0 hle _ _ =>
    have := divRoundUp_le (N := 1) h0 hM (by omega)
    simp only [find_length]
    omega
  | @link fileSize _ _ hlt _ _ _ ih =>
    have := divRoundUp_pos (n := fileSize - g.MaxFileSize) (by omega) hM
    have := divRoundUp_sub_add hlt.le hM
    simp only [find_length, ih]
    omega

/-- `ByteToSector` on a chain that `Describes` a file sends each offset of the file to the data
sector of its block: block `offset / SectorSize` of `dataOf chain`. -/
theorem Describes.byteToSector (hD : Describes g fileSize chain) {o : Int} (h0 : 0 ≤ o)
    (ho : o < fileSize) :
    (o / g.SectorSize).toNat < (dataOf chain).length ∧
      ByteToSector g chain o = (dataOf chain)[(o / g.SectorSize).toNat]? := by
  have hS := g.sector_pos
  have hq := Int.ediv_nonneg h0 hS.le
  induction hD generalizing o with
  | @last fileSize hdr hfs hle hH _ =>
    have hlt := ediv_lt_divRoundUp h0 ho hS
    have hN := divRoundUp_le hfs hS hle
    have hi : (o / g.SectorSize).toNat < hdr.data.length := by
      rw [hH.length_data hfs hle]; omega
    refine ⟨by simpa [dataOf] using hi, ?_⟩
    simp only [ByteToSector, Int.tdiv_eq_ediv h0 hS.le, dataOf, List.append_nil,
      FileHeader.getElem?_data hi]
    rw [if_neg (by omega), if_pos hq]
  | @link fileSize hdr next hlt hH _ _ ih =>
    have hlen := hH.length_data g.MaxFileSize_pos.le le_rfl
    rw [g.divRoundUp_MaxFileSize] at hlen
    simp only [ByteToSector, Int.tdiv_eq_ediv h0 hS.le, dataOf, List.length_append]
    by_cases hb : g.NumDirect ≤ o / g.SectorSize
    · have hm : g.MaxFileSize ≤ o := (Int.le_ediv_iff_mul_le hS).1 hb
      have hsub : (o - g.MaxFileSize) / g.SectorSize = o / g.SectorSize - g.NumDirect := by
        have := Int.add_mul_ediv_right o (-g.NumDirect) hS.ne'
        rw [Int.neg_mul, ← sub_eq_add_neg] at this
        rw [Geometry.MaxFileSize, this, sub_eq_add_neg]
      obtain ⟨hl, he⟩ := ih (o := o - g.MaxFileSize) (by omega) (by omega)
        (by rw [hsub]; omega)
      rw [hsub] at hl he
      have hidx : (o / g.SectorSize).toNat - hdr.data.length =
          (o / g.SectorSize - g.NumDirect).toNat := by
        have := g.direct_pos
        omega
      rw [if_pos hb, he, List.getElem?_append_right (by omega), hidx]
      exact ⟨by omega, rfl⟩
    · have hi : (o / g.SectorSize).toNat < hdr.data.length := by omega
      rw [if_neg hb, if_pos hq, List.getElem?_append_left hi, FileHeader.getElem?_data hi]
      exact ⟨by omega, rfl⟩

/-- The data sectors of a chain `Allocate` built were clear before it, are marked after it, and
none of them holds a chained header. -/
theorem Bitmap.Takes.mem_dataOf {fm fm' : Bitmap} (ht : fm.Takes fm' (sectors chain)) {s : Int}
    (hs : s ∈ dataOf chain) : fm.Test s = false ∧ fm'.Test s = true ∧ s ∉ links chain := by
  have hp := ht.perm (sectors_perm chain)
  have hm : s ∈ dataOf chain ++ links chain := List.mem_append_left _ hs
  refine ⟨by simpa [Bitmap.Test] using (hp.clear s hm).2, by simp [Bitmap.Test, hp.marked, hs],
    fun hl => (List.nodup_append.1 hp.nodup).2.2 hs hl⟩

theorem Describes.nodup_dataOf {fm fm' : Bitmap} (ht : fm.Takes fm' (sectors chain)) :
    (dataOf chain).Nodup :=
  (List.nodup_append.1 (ht.perm (sectors_perm chain)).nodup).1

/-- **A successful `Allocate` maps the file onto fresh data sectors, block by block.**  For every
free map and every `fileSize ≥ 0`: when `Allocate` returns true, `find_size` of the chain is
`fileSize`, and `ByteToSector` sends every offset of the file to a sector that was clear before
`Allocate` and is marked after it, that holds no chained header, and that no offset outside the
offset's `SectorSize` block shares. -/
theorem allocate_true_maps_blocks {fm fm' : Bitmap} (hfs : 0 ≤ fileSize)
    (h : Allocate g fm fileSize = (true, chain, fm')) :
    find_size chain = fileSize ∧
      ∀ o, 0 ≤ o → o < fileSize → ∃ s, ByteToSector g chain o = some s ∧
        fm.Test s = false ∧ fm'.Test s = true ∧ s ∉ links chain ∧
        ∀ o', 0 ≤ o' → o' < fileSize →
          (ByteToSector g chain o' = some s ↔ o' / g.SectorSize = o / g.SectorSize) := by
  obtain ⟨hD, ht⟩ := Allocate_true hfs h
  refine ⟨hD.find_size_eq, fun o h0 ho => ?_⟩
  obtain ⟨hi, hb⟩ := hD.byteToSector h0 ho
  have hq := Int.ediv_nonneg h0 g.sector_pos.le
  have hs := ht.mem_dataOf (List.getElem_mem hi)
  refine ⟨_, hb.trans (List.getElem?_eq_getElem hi), hs.1, hs.2.1, hs.2.2, fun o' h0' ho' => ?_⟩
  obtain ⟨hi', hb'⟩ := hD.byteToSector h0' ho'
  have hq' := Int.ediv_nonneg h0' g.sector_pos.le
  rw [hb', ← List.getElem?_eq_getElem hi]
  constructor
  · intro he
    have := List.getElem?_inj hi' (Describes.nodup_dataOf ht) (he.trans (by rfl))
    omega
  · intro he
    rw [he]

/-- The smallest geometry: one-byte sectors and one entry per header, so that every byte of a file
past the first needs a header of its own. -/
def Geometry.unit : Geometry := ⟨1, 1, Int.one_pos, Int.one_pos⟩

/-- A two-byte file on an empty disk of three sectors: a header with data sector 0, whose next
header is in sector 1 and has data sector 2. -/
theorem Allocate_unit_two :
    Allocate .unit (.empty 3) 2 =
      (true, [⟨1, 1, [0], 1⟩, ⟨1, 1, [2], -1⟩], (Allocate .unit (.empty 3) 2).2.2) := by
  rw [Allocate]
  simp only []
  rw [Allocate]
  decide

theorem allocate_true_maps_blocks_two_headers :
    Allocate .unit (.empty 3) 2 =
        (true, [⟨1, 1, [0], 1⟩, ⟨1, 1, [2], -1⟩], (Allocate .unit (.empty 3) 2).2.2) ∧
      find_size [⟨1, 1, [0], 1⟩, ⟨1, 1, [2], -1⟩] = 2 ∧
      ∀ o, 0 ≤ o → o < 2 →
        ∃ s, ByteToSector .unit [⟨1, 1, [0], 1⟩, ⟨1, 1, [2], -1⟩] o = some s ∧
        (Bitmap.empty 3).Test s = false ∧ (Allocate .unit (.empty 3) 2).2.2.Test s = true ∧
        s ∉ links [⟨1, 1, [0], 1⟩, ⟨1, 1, [2], -1⟩] ∧
        ∀ o', 0 ≤ o' → o' < 2 →
          (ByteToSector .unit [⟨1, 1, [0], 1⟩, ⟨1, 1, [2], -1⟩] o' = some s ↔
            o' / Geometry.unit.SectorSize = o / Geometry.unit.SectorSize) :=
  ⟨Allocate_unit_two, allocate_true_maps_blocks (by decide) Allocate_unit_two⟩

end NthuOs
