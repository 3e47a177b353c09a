import Mathlib.Logic.Function.Basic
import Mathlib.Data.Int.Init

/-! Files that are written as a whole, by way of a temporary file. -/
namespace Ogre.Fml

inductive FilePermission
  | kRead
  | kWrite
  | kReadWrite
  deriving DecidableEq, Repr

inductive AccessFlags
  | rdonly
  | wronly
  | rdwr
  deriving DecidableEq, Repr

inductive ModeFlags
  | rusr
  | wusr
  deriving DecidableEq, Repr

structure OpenFlags where
  access : AccessFlags
  creat : Bool := false
  trunc : Bool := false
  deriving DecidableEq, Repr

def toPosixAccessFlags : FilePermission → AccessFlags
  | .kRead => .rdonly
  | .kWrite => .wronly
  | .kReadWrite => .rdwr

def toPosixCreateModeFlags : FilePermission → List ModeFlags
  | .kRead => [.rusr]
  | .kWrite => [.wusr]
  | .kReadWrite => [.rusr, .wusr]

/-- The bytes that a pointer leads to, if it is not null. -/
structure Mapping where
  mapping : Option (List UInt8)
  size : UInt64
  length_mapping : ∀ bytes ∈ mapping, bytes.length = size.toNat

/-- A directory that is open, with what is in its files. -/
structure Directory where
  isValid : Bool := true
  files : String → Option (List UInt8) := fun _ => none

def Directory.set (directory : Directory) (name : String) (content : Option (List UInt8)) : Directory :=
  { directory with files := Function.update directory.files name content }

/-- What calls come to in the end, after those that are interrupted. What is asked to be
written is written in part at least, or not at all. -/
structure Posix where
  faccessat : String → Bool
  openat : String → OpenFlags → List ModeFlags → Bool
  ftruncate : Bool
  write : Nat → Nat → Option Nat
  fsync : Bool
  renameat : Bool
  write_pos : ∀ offset count written, 0 < count → write offset count = some written → 0 < written
  write_le : ∀ offset count written, write offset count = some written → written ≤ count

/-- The bytes of an open file, and the place where the next ones go. -/
structure OpenedFile where
  content : List UInt8
  position : Nat := 0

/-- A file is cut, or made longer with zeros. -/
def resize (content : List UInt8) (size : Nat) : List UInt8 :=
  content.take size ++ List.replicate (size - content.length) 0

def OpenedFile.write (file : OpenedFile) (bytes : List UInt8) : OpenedFile where
  content := resize file.content file.position ++ bytes ++ file.content.drop (file.position + bytes.length)
  position := file.position + bytes.length

def fileExists (os : Posix) (directory : Directory) (path : String) : Bool :=
  directory.isValid && os.faccessat path

/-- Files that are there keep their bytes unless they are truncated. -/
def openat (os : Posix) (directory : Directory) (path : String) (flags : OpenFlags) (mode : List ModeFlags) :
    Option OpenedFile :=
  if !os.openat path flags mode then none
  else match directory.files path with
    | none => if flags.creat then some ⟨[], 0⟩ else none
    | some content => some ⟨if flags.trunc then [] else content, 0⟩

def openFile (os : Posix) (directory : Directory) (path : String) (createIfNecessary : Bool)
    (permission : FilePermission) : Option OpenedFile :=
  if createIfNecessary && !fileExists os directory path then
    openat os directory path ⟨toPosixAccessFlags permission, true, true⟩ (toPosixCreateModeFlags permission)
  else openat os directory path ⟨toPosixAccessFlags permission, false, false⟩ []

/-- Sizes are signed there, and those that get negative are refused. -/
def truncateFile (os : Posix) (file : OpenedFile) (size : UInt64) : Bool × OpenedFile :=
  if os.ftruncate ∧ 0 ≤ size.toInt64 then (true, { file with content := resize file.content size.toNat })
  else (false, file)

/-- What a call is given to read. There is no result where it is not all in the mapping. -/
def readMapping (data : List UInt8) (offset count : Int) : Option (List UInt8) :=
  if 0 ≤ offset ∧ offset + count ≤ data.length then some ((data.drop offset.toNat).take count.toNat) else none

def writeLoop (os : Posix) (data : List UInt8) (file : OpenedFile) (remaining offset : Int) :
    Option (Bool × OpenedFile) :=
  if _hremaining : 0 < remaining then
    match readMapping data offset remaining with
    | none => none
    | some bytes =>
      match _hwrite : os.write offset.toNat remaining.toNat with
      | none => some (false, file)
      | some written =>
        writeLoop os data (file.write (bytes.take written)) (remaining - written) (offset + written)
  else some (true, file)
termination_by remaining.toNat
decreasing_by
  have hpos : 0 < written := os.write_pos _ _ _ (by omega) _hwrite
  omega

def tempFileName (fileName : String) : String := fileName ++ ".temp"

def writeAtomically (os : Posix) (directory : Directory) (fileName : Option String) (data : Mapping) :
    Option (Bool × Directory) :=
  match fileName, data.mapping with
  | some fileName, some bytes =>
    match openFile os directory (tempFileName fileName) true .kReadWrite with
    | none => some (false, directory)
    | some file =>
      match truncateFile os file data.size with
      | (false, file) => some (false, directory.set (tempFileName fileName) file.content)
      | (true, file) =>
        match writeLoop os bytes file data.size.toInt64.toInt 0 with
        | none => none
        | some (written, file) =>
          let directory := directory.set (tempFileName fileName) file.content
          if !written then some (false, directory)
          else if !os.fsync then some (false, directory)
          else if !os.renameat then some (false, directory)
          else some (true, (directory.set fileName file.content).set (tempFileName fileName) none)
  | _, _ => some (false, directory)

section Loop
variable {os : Posix} {processed rest stale bytes : List UInt8} {file : OpenedFile} {result : Bool × OpenedFile}

theorem resize_append (processed stale : List UInt8) : resize (processed ++ stale) processed.length = processed := by
  simp [resize]

@[simp] theorem length_resize (content : List UInt8) (size : Nat) : (resize content size).length = size := by
  simp [resize]
  omega

/-- A write goes over what is stale. -/
theorem write_append (processed bytes stale : List UInt8) :
    OpenedFile.write ⟨processed ++ stale, processed.length⟩ bytes =
      ⟨processed ++ bytes ++ stale.drop bytes.length, (processed ++ bytes).length⟩ := by
  simp [OpenedFile.write, resize_append, List.drop_append]

theorem readMapping_append (processed rest : List UInt8) :
    readMapping (processed ++ rest) processed.length rest.length = some rest := by
  simp [readMapping]

/-- The loop ends with all bytes in the file, in the place of as many stale ones, or
with a call that failed; it is on what is not written yet. -/
theorem writeLoop_append (processed : List UInt8) (hstale : stale.length = rest.length) :
    ∃ result, writeLoop os (processed ++ rest) ⟨processed ++ stale, processed.length⟩ rest.length processed.length =
        some result ∧ (result.1 = true → result.2.content = processed ++ rest) := by
  induction hcount : rest.length using Nat.strongRecOn generalizing processed rest stale with
  | ind count ih =>
    subst hcount
    rw [writeLoop]
    split
    next hpos =>
      rw [readMapping_append]
      dsimp only
      split
      next => exact ⟨_, rfl, by simp⟩
      next written hwrite =>
        have hpos' : 0 < written := os.write_pos _ _ _ (by omega) hwrite
        have hle : written ≤ rest.length := os.write_le _ _ _ hwrite
        have htake : (rest.take written).length = written := List.length_take_of_le hle
        have hdata : processed ++ rest = processed ++ rest.take written ++ rest.drop written := by
          rw [List.append_assoc, List.take_append_drop]
        have hremaining : (rest.length - written : Int) = (rest.drop written).length := by
          rw [List.length_drop]
          omega
        have hoffset : (processed.length + written : Int) = (processed ++ rest.take written).length := by
          rw [List.length_append, htake]
          omega
        rw [hremaining, hoffset, write_append, htake, hdata]
        have hless : (rest.drop written).length < rest.length := by
          rw [List.length_drop]
          omega
        exact ih _ hless (processed ++ rest.take written) (by rw [List.length_drop, List.length_drop, hstale]) rfl
    next hend =>
      obtain rfl : rest = [] := List.eq_nil_of_length_eq_zero (by omega)
      obtain rfl : stale = [] := List.eq_nil_of_length_eq_zero hstale
      exact ⟨_, rfl, fun _ => rfl⟩

end Loop

section Operations
variable {os : Posix} {directory : Directory} {path : String} {createIfNecessary : Bool} {permission : FilePermission}
  {file : OpenedFile}

theorem openat_position {flags : OpenFlags} {mode : List ModeFlags}
    (h : openat os directory path flags mode = some file) : file.position = 0 := by
  unfold openat at h
  split at h
  · cases h
  · split at h
    · split at h
      · cases h
        rfl
      · cases h
    · cases h
      rfl

theorem openFile_position (h : openFile os directory path createIfNecessary permission = some file) :
    file.position = 0 := by
  unfold openFile at h
  split at h
  · exact openat_position h
  · exact openat_position h

/-- A file that was truncated is as long as the data, whose size did not get negative. -/
theorem truncateFile_true {size : UInt64} {truncated : OpenedFile}
    (h : truncateFile os file size = (true, truncated)) :
    truncated.content.length = size.toNat ∧ truncated.position = file.position ∧ size.toInt64.toInt = size.toNat := by
  unfold truncateFile at h
  split at h
  next hsize =>
    obtain ⟨-, rfl⟩ := Prod.mk.inj h
    refine ⟨length_resize _ _, rfl, ?_⟩
    have hpos : 0 ≤ size.toInt64.toInt := Int64.le_iff_toInt_le.mp hsize.2
    have hcond : size.toInt64.toInt =
        if 2 * size.toNat < 2 ^ 64 then (size.toNat : Int) else size.toNat - (2 ^ 64 : Nat) :=
      BitVec.toInt_eq_toNat_cond size.toBitVec
    have hlt : size.toNat < 2 ^ 64 := size.toNat_lt
    rw [hcond] at hpos ⊢
    omega
  · cases (Prod.mk.inj h).1

theorem writeLoop_truncated (os : Posix) {data : Mapping} {bytes : List UInt8} (hdata : data.mapping = some bytes)
    (hlength : file.content.length = data.size.toNat) (hposition : file.position = 0)
    (hsize : data.size.toInt64.toInt = data.size.toNat) :
    ∃ result, writeLoop os bytes file data.size.toInt64.toInt 0 = some result ∧
      (result.1 = true → result.2.content = bytes) := by
  obtain ⟨content, position⟩ := file
  subst hposition
  have hbytes : bytes.length = data.size.toNat := data.length_mapping bytes hdata
  rw [hsize, ← hbytes]
  exact writeLoop_append [] (hlength.trans hbytes.symm)

end Operations

theorem tempFileName_ne (name : String) : tempFileName name ≠ name := by
  intro h
  have hlength := congrArg String.length h
  rw [tempFileName, String.length_append] at hlength
  simp at hlength

@[simp] theorem files_set_self (directory : Directory) (name : String) (content : Option (List UInt8)) :
    (directory.set name content).files name = content := Function.update_self _ _ _

theorem files_set_of_ne {name other : String} (directory : Directory) (content : Option (List UInt8))
    (h : other ≠ name) : (directory.set name content).files other = directory.files other :=
  Function.update_of_ne h _ _

/-- The file keeps what it had where nothing was written, and has the new bytes and no others where
they were; and no other files change but the temporary one. -/
structure AllOrNothing (fileName : Option String) (data : Mapping) (before : Directory)
    (result : Bool × Directory) : Prop where
  nothing : result.1 = false → ∀ name ∈ fileName, result.2.files name = before.files name
  all : result.1 = true → ∃ name ∈ fileName, ∃ bytes ∈ data.mapping, result.2.files name = some bytes
  others : ∀ other, other ∉ fileName → other ∉ fileName.map tempFileName → result.2.files other = before.files other

theorem AllOrNothing.failed {fileName : String} {data : Mapping} {before : Directory}
    {content : Option (List UInt8)} :
    AllOrNothing (some fileName) data before (false, before.set (tempFileName fileName) content) where
  nothing _ name hname := by
    obtain rfl := Option.some.inj hname
    exact files_set_of_ne _ _ (tempFileName_ne _).symm
  all h := by cases h
  others other _ htemp := files_set_of_ne _ _ fun h => htemp (congrArg some h.symm)

theorem AllOrNothing.renamed {fileName : String} {data : Mapping} {before : Directory}
    {content : Option (List UInt8)} {bytes : List UInt8} (h : data.mapping = some bytes) :
    AllOrNothing (some fileName) data before (true,
      ((before.set (tempFileName fileName) content).set fileName (some bytes)).set (tempFileName fileName) none) where
  nothing h := by cases h
  all _ := by
    refine ⟨fileName, rfl, bytes, h, ?_⟩
    rw [files_set_of_ne _ _ (tempFileName_ne _).symm, files_set_self]
  others other hname htemp := by
    have hne : other ≠ tempFileName fileName := fun h => htemp (congrArg some h.symm)
    rw [files_set_of_ne _ _ hne, files_set_of_ne _ _ fun h => hname (congrArg some h.symm), files_set_of_ne _ _ hne]

/-- A write of some data to some file. -/
theorem writeAtomically_some (os : Posix) (directory : Directory) (fileName : String) {data : Mapping}
    {bytes : List UInt8} (hbytes : data.mapping = some bytes) :
    ∃ result, writeAtomically os directory (some fileName) data = some result ∧
      AllOrNothing (some fileName) data directory result := by
  unfold writeAtomically
  rw [hbytes]
  dsimp only
  split
  next => exact ⟨_, rfl, ⟨fun _ _ _ => rfl, by simp, fun _ _ _ => rfl⟩⟩
  next file hopen =>
    split
    next => exact ⟨_, rfl, .failed⟩
    next truncated htruncate =>
      obtain ⟨hlength, hposition, hsize⟩ := truncateFile_true htruncate
      obtain ⟨⟨written, file⟩, hloop, hall⟩ := writeLoop_truncated os hbytes hlength
        (hposition.trans (openFile_position hopen)) hsize
      rw [hloop]
      dsimp only
      split
      · exact ⟨_, rfl, .failed⟩
      · split
        · exact ⟨_, rfl, .failed⟩
        · split
          · exact ⟨_, rfl, .failed⟩
          next hwritten _ _ =>
            obtain rfl : file.content = bytes := hall (by simpa using hwritten)
            exact ⟨_, rfl, .renamed hbytes⟩

/-- Whatever the calls come to, all reads are inside of the mapping, the loop comes to its end, and
the file is written as a whole or not at all. -/
theorem writeAtomically_allOrNothing (os : Posix) (directory : Directory) (fileName : Option String)
    (data : Mapping) : ∃ result, writeAtomically os directory fileName data = some result ∧
      AllOrNothing fileName data directory result := by
  have hnull : ∃ result, some (false, directory) = some result ∧ AllOrNothing fileName data directory result :=
    ⟨_, rfl, ⟨fun _ _ _ => rfl, by simp, fun _ _ _ => rfl⟩⟩
  cases fileName with
  | none => exact hnull
  | some fileName =>
    cases hbytes : data.mapping with
    | some bytes => exact writeAtomically_some os directory fileName hbytes
    | none =>
      unfold writeAtomically
      rw [hbytes]
      exact hnull

end Ogre.Fml
