import SciTECO.Characters
import SciTECO.QReg.GetCharacter
import SciTECO.QReg.Table

/-!
# Auto-completion

Q-Registers, labels and help topics are completed from the nodes of a tree, and
file names from the entries of a directory.
-/

namespace SciTECO
namespace Completion

open QReg (utf8Strlen)

/-!
## Comparing strings
-/

/-- `g_ascii_tolower()`. -/
def asciiTolower (c : UInt8) : UInt8 :=
  if 'A'.toUInt8 ≤ c ∧ c ≤ 'Z'.toUInt8 then c + 0x20 else c

/-- `teco_string_casecmp()`. -/
def stringCasecmp : Bytes -> Bytes -> Int := compareBy asciiTolower

/-- `teco_string_diff()`. -/
def stringDiff : Bytes -> Bytes -> Nat
  | x :: a, y :: b => if x = y then stringDiff a b + 1 else 0
  | _, _ => 0

/-- `g_unichar_tolower()`. -/
abbrev ToLower : Type := Gunichar -> Gunichar

/-- The loop of `teco_string_casediff()`, of which the fuel is the length of the
right string.  Both strings are advanced by the character of the right one. -/
def casediffFrom (toLower : ToLower) : Nat -> Bytes -> Bytes -> Nat
  | 0, _, _ => 0
  | _, [], _ => 0
  | _, _, [] => 0
  | fuel + 1, x :: a, y :: b =>
      if toLower (utf8GetChar (x :: a)) = toLower (utf8GetChar (y :: b)) then
        utf8Skip y + casediffFrom toLower fuel ((x :: a).drop (utf8Skip y))
          ((y :: b).drop (utf8Skip y))
      else 0

/-- `teco_string_casediff()`. -/
def stringCasediff (toLower : ToLower) (a b : Bytes) : Nat :=
  casediffFrom toLower b.length a b

section

variable (toLower : ToLower) (caseSensitive : Bool)

/-- `teco_string_diff_t` for a case mode. -/
def diffOf : Bytes -> Bytes -> Nat :=
  if caseSensitive then stringDiff else stringCasediff toLower

/-- `rb3_cmp` for a case mode. -/
def cmpOf : Bytes -> Bytes -> Int :=
  if caseSensitive then stringCmp else stringCasecmp

/-- The difference of two `gsize`. -/
def gsizeSub (a b : Nat) : Nat := if b ≤ a then a - b else a + 2 ^ 64 - b

/-!
## Nodes of a tree
-/

/-- The result of a completion, the string it inserts and the strings it
proposes instead. -/
structure Completed where
  unambiguous : Bool
  insert : Bytes
  popup : List Bytes
deriving DecidableEq, Repr

/-- The variables of the loop in `teco_rb3str_auto_complete()`. -/
structure Scan where
  first : Option Bytes
  prefixLen : Nat
  prefixedEntries : Nat

/-- The body of the loop. -/
def scanEntry (strLen : Nat) (s : Scan) (key : Bytes) : Scan :=
  match s.first with
  | none =>
      { first := some key
        prefixLen := gsizeSub key.length strLen
        prefixedEntries := s.prefixedEntries + 1 }
  | some first =>
      let len := gsizeSub (diffOf toLower caseSensitive key first) strLen
      { s with
        prefixLen := if len < s.prefixLen then len else s.prefixLen
        prefixedEntries := s.prefixedEntries + 1 }

/-- The condition of the loop. -/
def prefixed (str key : Bytes) : Bool :=
  str.length ≤ key.length &&
    diffOf toLower caseSensitive key str == str.length

/-- `teco_rb3str_nfind()`. -/
def rb3strNfind (tree : SearchTree Bytes) (str : Bytes) :
    Option (SearchTree.Position Bytes) :=
  SearchTree.lowerBound (fun key => cmpOf caseSensitive key str) tree [] none

/-- The entries are restricted to a number of characters unless it is 0. -/
def eligible (restrictLen : Nat) (key : Bytes) : Bool :=
  restrictLen = 0 || utf8Strlen key = restrictLen

/-- The entries which the loop takes into account.  The nodes are visited with
`teco_rb3str_get_next()`. -/
def proposedKeys (tree : SearchTree Bytes) (str : Bytes)
    (restrictLen : Nat) : List Bytes :=
  ((SearchTree.rest (rb3strNfind caseSensitive tree str)).takeWhile
    (prefixed toLower caseSensitive str)).filter (eligible restrictLen)

/-- `teco_rb3str_auto_complete()`. -/
def rb3strAutoComplete (tree : SearchTree Bytes) (str : Bytes)
    (restrictLen : Nat) : Completed :=
  let keys := proposedKeys toLower caseSensitive tree str restrictLen
  let s := keys.foldl (scanEntry toLower caseSensitive str.length)
    { first := none, prefixLen := 0, prefixedEntries := 0 }
  { unambiguous := s.prefixedEntries = 1
    insert :=
      if 0 < s.prefixLen then
        ((s.first.getD []).drop str.length).take s.prefixLen
      else []
    popup :=
      if s.prefixLen = 0 ∧ 1 < s.prefixedEntries then keys else [] }

end

/-!
## Entries of a directory
-/

/-- The values of `GFileTest` that are used. -/
inductive FileTest where
  | isRegular
  | isDir
  | exists
deriving DecidableEq, Repr

/-- What the file system tells about an entry of a directory. -/
structure DirEntry where
  name : Bytes
  /-- `teco_file_is_visible()`. -/
  isVisible : Bool
  /-- `g_file_test()`. -/
  test : FileTest -> Bool

/-- The file system. -/
structure FileSystem where
  /-- `teco_file_expand_path()`. -/
  expandPath : Bytes -> Bytes
  /-- `g_dir_open()` and `g_dir_read_name()`. -/
  readDir : Bytes -> Option (List DirEntry)
  /-- `teco_file_is_case_sensitive()`. -/
  isCaseSensitive : Bytes -> Bool

/-- `G_DIR_SEPARATOR`. -/
def dirSeparator : UInt8 := '/'.toUInt8

/-- The loop of `teco_file_get_dirname_len()`. -/
def dirnameLenFrom : Nat -> Nat -> Bytes -> Nat
  | _, len, [] => len
  | pos, len, c :: rest =>
      dirnameLenFrom (pos + 1) (if c = dirSeparator then pos + 1 else len) rest

/-- `teco_file_get_dirname_len()`. -/
def fileGetDirnameLen (path : Bytes) : Nat := dirnameLenFrom 0 0 path

/-- `teco_file_is_dir()`. -/
def fileIsDir (filename : Bytes) : Bool :=
  filename.getLast? == some dirSeparator

section

variable (toLower : ToLower) (caseSensitive : Bool)

/-- An entry is ignored unless it begins with the base name and may be
proposed. -/
def proposesEntry (fileTest : FileTest) (basename : Bytes)
    (entry : DirEntry) : Bool :=
  diffOf toLower caseSensitive entry.name basename == basename.length &&
    !((basename.isEmpty && !entry.isVisible) ||
      (fileTest != .exists && !entry.test fileTest))

/-- The name of an entry.  A directory has a separator at its end. -/
def entryPath (fileTest : FileTest) (entry : DirEntry) : Bytes :=
  if fileTest = .isDir ∨ entry.test .isDir = true then
    entry.name ++ [dirSeparator]
  else entry.name

/-- The variables of the loop in `teco_file_auto_complete()`. -/
structure FileScan where
  files : List Bytes
  prefixLen : Nat
  filesLen : Nat

/-- The body of the loop for an entry that is not ignored. -/
def scanFile (filenameLen : Nat) (s : FileScan) (curFilename : Bytes) :
    FileScan :=
  let cur := curFilename.drop filenameLen
  match s.files with
  | [] =>
      { files := [curFilename]
        prefixLen := cur.length
        filesLen := s.filesLen + 1 }
  | other :: _ =>
      let len := diffOf toLower caseSensitive (other.drop filenameLen) cur
      { files := curFilename :: s.files
        prefixLen := if len < s.prefixLen then len else s.prefixLen
        filesLen := s.filesLen + 1 }

/-- `teco_file_auto_complete()`.  The files that are proposed are sorted, which
is left out. -/
def fileAutoComplete (fs : FileSystem) (filename : Bytes)
    (fileTest : FileTest) : Completed :=
  let filenameExpanded := fs.expandPath filename
  let dirnameLen := fileGetDirnameLen filenameExpanded
  let dirname := filenameExpanded.take dirnameLen
  let basename := filenameExpanded.drop dirnameLen
  let opened := if dirnameLen = 0 then ['.'.toUInt8] else dirname
  match fs.readDir opened with
  | none => { unambiguous := false, insert := [], popup := [] }
  | some entries =>
      let caseSensitive := fs.isCaseSensitive opened
      let paths := (entries.filter
        (proposesEntry toLower caseSensitive fileTest basename)).map
          (entryPath fileTest)
      let s := (paths.map (fun path => dirname ++ path)).foldl
        (scanFile toLower caseSensitive filenameExpanded.length)
        { files := [], prefixLen := 0, filesLen := 0 }
      { unambiguous := s.filesLen = 1 && !fileIsDir (s.files.headD [])
        insert :=
          if 0 < s.prefixLen then
            ((s.files.headD []).drop filenameExpanded.length).take s.prefixLen
          else []
        popup := if s.prefixLen = 0 ∧ 1 < s.filesLen then s.files else [] }

end

end Completion
end SciTECO
