import NthuOs.FileSys.Bitmap

/-!
# File headers

`filehdr.cc` extends NachOS's file header with a chain: a file larger than `MaxFileSize` bytes
gets a second header for the rest, in a sector of its own (`next_fileheader_sector`), held in
memory as `next_fileheader`, and so on.  A chain is modelled as the list of its headers, the
first one first: each header's `next_fileheader` is the next element, and the end of the list
stands for a NULL `next_fileheader`.

The constants of `filehdr.h` and `disk.h` (`SectorSize`, `NumDirect`) are not among the sources
and are parameters (`Geometry`); `MaxFileSize` is `NumDirect * SectorSize`, as in NachOS.
`divRoundUp` (`utility.h`) is not among the sources either.  The disk writes of `Allocate` (it
zeroes each data sector) and `Print` touch neither the free map nor a header and are left out;
`FetchFrom` and `WriteBack` are in `NthuOs.FileSys.Persist`.

`Allocate_cases` says what one level of `Allocate` does, in each of its four outcomes; the later
files argue from it.
-/

namespace NthuOs

/-- The disk geometry of `disk.h` and `filehdr.h`: `SectorSize` bytes per sector and `NumDirect`
data-sector entries per header. -/
structure Geometry where
  SectorSize : Int
  NumDirect : Int
  sector_pos : 0 < SectorSize
  direct_pos : 0 < NumDirect

namespace Geometry

/-- `MaxFileSize`: `NumDirect * SectorSize`, the bytes one header describes. -/
def MaxFileSize (g : Geometry) : Int := g.NumDirect * g.SectorSize

theorem MaxFileSize_pos (g : Geometry) : 0 < g.MaxFileSize := Int.mul_pos g.direct_pos g.sector_pos

/-- The `numBytes` `Allocate` gives a header for a file of `fileSize` more bytes:
`fileSize >= MaxFileSize ? MaxFileSize : fileSize`. -/
def headerBytes (g : Geometry) (fileSize : Int) : Int :=
  if fileSize ≥ g.MaxFileSize then g.MaxFileSize else fileSize

/-- What is left of the file after a header shrinks: the measure `Allocate` recurses on. -/
theorem rest_lt (g : Geometry) {fileSize : Int} (h : 0 < fileSize - g.headerBytes fileSize) :
    (fileSize - g.headerBytes fileSize).toNat < fileSize.toNat := by
  have := g.MaxFileSize_pos
  unfold headerBytes at *
  split at * <;> omega

end Geometry

/-- Modelled from the spec: `divRoundUp(n, s)` of NachOS's `utility.h`, which is not among the
sources: `n / s`, plus one when `n % s > 0`, in C's truncating arithmetic. -/
def divRoundUp (n s : Int) : Int := n.tdiv s + if n.tmod s > 0 then 1 else 0

/-- The fields of a `FileHeader` that `Allocate`, `Deallocate`, `ByteToSector` and `find_size`
read or write. -/
structure FileHeader where
  numBytes : Int
  numSectors : Int
  dataSectors : List Int
  next_fileheader_sector : Int
  deriving DecidableEq, Repr

namespace FileHeader

/-- `FileHeader()`: every field `-1`, and `dataSectors` filled with `-1` by `memset`. -/
def new (g : Geometry) : FileHeader := ⟨-1, -1, List.replicate g.NumDirect.toNat (-1), -1⟩

/-- `FileLength()`. -/
def FileLength (hdr : FileHeader) : Int := hdr.numBytes

end FileHeader

/-- `FileHeader::Allocate(freeMap, fileSize)` on a header fresh from `FileHeader()`, as NachOS
calls it (`FileSystem::Create`, and `Allocate` itself on `new FileHeader()`).  The result is what
`Allocate` returns, the chain from the header, and the free map after. -/
def Allocate (g : Geometry) (freeMap : Bitmap) (fileSize : Int) :
    Bool × List FileHeader × Bitmap :=
  let numBytes := g.headerBytes fileSize
  let numSectors := divRoundUp numBytes g.SectorSize
  let hdr : FileHeader := { FileHeader.new g with numBytes, numSectors }
  if freeMap.NumClear < numSectors then (false, [hdr], freeMap)
  else
    let found := Bitmap.findSectors numSectors.toNat freeMap
    let hdr := { hdr with dataSectors := found.1 ++ hdr.dataSectors.drop found.1.length }
    if 0 < fileSize - numBytes then
      let next := found.2.FindAndSet
      let hdr := { hdr with next_fileheader_sector := next.1 }
      if next.1 = -1 then (false, [hdr], next.2)
      else
        let rest := Allocate g next.2 (fileSize - numBytes)
        (rest.1, hdr :: rest.2.1, rest.2.2)
    else (true, [hdr], found.2)
termination_by fileSize.toNat
decreasing_by exact g.rest_lt (by assumption)

/-- The four ways one level of `Allocate` ends: too few clear sectors for this header's data; the
rest of the file fits in this header; no clear sector is left for the next header; or the next
header is allocated for the rest of the file. -/
theorem Allocate_cases (g : Geometry) (freeMap : Bitmap) (fileSize : Int) :
    let numBytes := g.headerBytes fileSize
    let numSectors := divRoundUp numBytes g.SectorSize
    let found := Bitmap.findSectors numSectors.toNat freeMap
    let data := found.1 ++ (List.replicate g.NumDirect.toNat (-1)).drop found.1.length
    let next := found.2.FindAndSet
    let rest := Allocate g next.2 (fileSize - numBytes)
    (freeMap.NumClear < numSectors ∧
        Allocate g freeMap fileSize =
          (false, [⟨numBytes, numSectors, List.replicate g.NumDirect.toNat (-1), -1⟩],
            freeMap)) ∨
      (¬ freeMap.NumClear < numSectors ∧ ¬ 0 < fileSize - numBytes ∧
        Allocate g freeMap fileSize = (true, [⟨numBytes, numSectors, data, -1⟩], found.2)) ∨
      (¬ freeMap.NumClear < numSectors ∧ 0 < fileSize - numBytes ∧ next.1 = -1 ∧
        Allocate g freeMap fileSize =
          (false, [⟨numBytes, numSectors, data, next.1⟩], next.2)) ∨
      (¬ freeMap.NumClear < numSectors ∧ 0 < fileSize - numBytes ∧ next.1 ≠ -1 ∧
        Allocate g freeMap fileSize =
          (rest.1, ⟨numBytes, numSectors, data, next.1⟩ :: rest.2.1, rest.2.2)) := by
  intro numBytes numSectors found data next rest
  rw [Allocate]
  by_cases hc : freeMap.NumClear < numSectors
  · exact .inl ⟨hc, if_pos hc⟩
  by_cases hr : 0 < fileSize - numBytes
  · by_cases hn : next.1 = -1
    · refine .inr (.inr (.inl ⟨hc, hr, hn, ?_⟩))
      simp only [if_neg hc, if_pos hr, if_pos hn]
      rfl
    · refine .inr (.inr (.inr ⟨hc, hr, hn, ?_⟩))
      simp only [if_neg hc, if_pos hr, if_neg hn]
      rfl
  · exact .inr (.inl ⟨hc, hr, by simp only [if_neg hc, if_neg hr]; rfl⟩)

/-- `FileHeader::Deallocate(freeMap)` on the chain from a header: `Clear` its `numSectors` data
sectors, then `Deallocate` the next header when `next_fileheader_sector` is not `-1`.  `none`
when an assertion of `Clear` fails, or when `next_fileheader` is NULL there. -/
def Deallocate : List FileHeader → Bitmap → Option Bitmap
  | [], _ => none
  | hdr :: next, freeMap => do
    let freeMap ← Bitmap.clearSectors (hdr.dataSectors.take hdr.numSectors.toNat) freeMap
    if hdr.next_fileheader_sector ≠ -1 then Deallocate next freeMap else pure freeMap

/-- `FileHeader::ByteToSector(offset)` on the chain from a header: an offset past the header's
`NumDirect` sectors goes to `next_fileheader`, `MaxFileSize` bytes further back.  `none` for a
NULL `next_fileheader` and for a negative index. -/
def ByteToSector (g : Geometry) : List FileHeader → Int → Option Int
  | [], _ => none
  | hdr :: next, offset =>
    let sector_idx := offset.tdiv g.SectorSize
    if sector_idx ≥ g.NumDirect then ByteToSector g next (offset - g.MaxFileSize)
    else if 0 ≤ sector_idx then hdr.dataSectors[sector_idx.toNat]? else none

/-- `FileHeader::find_size()` on the chain from a header: its `FileLength()`, plus the next
header's `find_size()` when `next_fileheader` is not NULL. -/
def find_size : List FileHeader → Int
  | [] => 0
  | hdr :: next => hdr.FileLength + find_size next

/-- `FileHeader::find_length()`: the number of headers in the chain. -/
def find_length : List FileHeader → Int
  | [] => 0
  | _ :: next => 1 + find_length next

end NthuOs
