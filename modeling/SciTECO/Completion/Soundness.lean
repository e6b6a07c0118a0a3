import SciTECO.Completion.Lookup
import SciTECO.Completion.Scans

/-!
# What is completed

All entries which begin with a string go on alike for a while, and this is what
a completion inserts.
-/

namespace SciTECO
namespace Completion

open CommonPrefix

/-!
## Going on alike
-/

section

variable {U : Type} [DecidableEq U]

/-- A string begins with another one. -/
def Reading.startsWith (r : Reading U) (str a : Bytes) : Bool :=
  (r.units str).isPrefixOf (r.units a)

/-- The longest string with which some strings go on. -/
structure GoesOn (r : Reading U) (str : Bytes) (l : List Bytes)
    (insert : Bytes) : Prop where
  nothing : l = [] -> insert = []
  common : forall a, a ∈ l -> r.units (str ++ insert) <+: r.units a
  longest : l ≠ [] -> forall y,
    (forall a, a ∈ l -> r.units (str ++ y) <+: r.units a) ->
      r.units (str ++ y) <+: r.units (str ++ insert)

variable {r : Reading U} {str : Bytes}

end

/-!
## Completions
-/

/-- What is completed. -/
inductive Request where
  | tree (tree : SearchTree Bytes) (caseSensitive : Bool) (str : Bytes)
      (restrictLen : Nat)
  | file (fs : FileSystem) (filename : Bytes) (fileTest : FileTest)

/-- The directory part of a file name. -/
def FileSystem.dirname (fs : FileSystem) (filename : Bytes) : Bytes :=
  (fs.expandPath filename).take
    (fileGetDirnameLen (fs.expandPath filename))

def FileSystem.basename (fs : FileSystem) (filename : Bytes) : Bytes :=
  (fs.expandPath filename).drop
    (fileGetDirnameLen (fs.expandPath filename))

/-- The directory that is opened. -/
def FileSystem.opened (fs : FileSystem) (filename : Bytes) : Bytes :=
  if fileGetDirnameLen (fs.expandPath filename) = 0 then ['.'.toUInt8]
  else fs.dirname filename

def FileSystem.entries (fs : FileSystem) (filename : Bytes) : List DirEntry :=
  (fs.readDir (fs.opened filename)).getD []

/-- An entry may be proposed. -/
def proposable (fileTest : FileTest) (basename : Bytes)
    (entry : DirEntry) : Bool :=
  !((basename.isEmpty && !entry.isVisible) ||
    (fileTest != .exists && !entry.test fileTest))

namespace Request

def caseSensitive : Request -> Bool
  | tree _ caseSensitive _ _ => caseSensitive
  | file fs filename _ => fs.isCaseSensitive (fs.opened filename)

/-- The string with which entries begin. -/
def str : Request -> Bytes
  | tree _ _ str _ => str
  | file fs filename _ => fs.basename filename

/-- The names of all entries. -/
def names : Request -> List Bytes
  | tree t _ _ _ => t.toList
  | file fs filename _ => (fs.entries filename).map (fun entry => entry.name)

/-- The entries that are taken into account with what is proposed for them. -/
def candidates : Request -> List (Bytes × Bytes)
  | tree t _ _ restrictLen =>
      (t.toList.filter (eligible restrictLen)).map (fun key => (key, key))
  | file fs filename fileTest =>
      ((fs.entries filename).filter
        (proposable fileTest (fs.basename filename))).map
          (fun entry => (entry.name, entryPath fileTest entry))

/-- A proposal is completed further, since it is a directory. -/
def leads : Request -> Bytes -> Bool
  | tree _ _ _ _, _ => false
  | file fs filename _, path => fileIsDir (fs.dirname filename ++ path)

section

variable (toLower : ToLower)

/-- The result. -/
def completed : Request -> Completed
  | tree t caseSensitive str restrictLen =>
      rb3strAutoComplete toLower caseSensitive t str restrictLen
  | file fs filename fileTest => fileAutoComplete toLower fs filename fileTest

/-- An entry begins with the string under the case mode. -/
def startsWith (q : Request) (name : Bytes) : Bool :=
  if q.caseSensitive then byteReading.startsWith q.str name
  else (foldedReading toLower).startsWith q.str name

/-- What is proposed for the entries that begin with the string. -/
def matching (q : Request) : List Bytes :=
  (q.candidates.filter (fun c => q.startsWith toLower c.1)).map
    (fun c => c.2)

/-- The inserted string is the longest one with which the entries go on under
the case mode. -/
def Completes (q : Request) : Prop :=
  if q.caseSensitive then
    GoesOn byteReading q.str (q.matching toLower) (q.completed toLower).insert
  else
    GoesOn (foldedReading toLower) q.str (q.matching toLower)
      (q.completed toLower).insert

/-- Whole characters are inserted, and exactly one entry is unambiguous. -/
structure Sound (q : Request) : Prop where
  whole : ValidUtf8 (q.completed toLower).insert
  completes : q.Completes toLower
  unambiguous : (q.completed toLower).unambiguous = true <->
    (q.matching toLower).length = 1

/-- The strings are in UTF-8, and characters which differ only in case have
sequences of the same length. -/
structure Foldable (q : Request) : Prop where
  str : ValidUtf8 q.str
  names : forall a, a ∈ q.names -> ValidUtf8 a
  begins : forall a, a ∈ q.names ->
    SameWidths toLower (characters a) (characters q.str)
  alike : forall a b, a ∈ q.matching toLower -> b ∈ q.matching toLower ->
    SameWidths toLower (characters a) (characters b)

/-- The nodes which begin with the string stand together from the first node
on that is not below. -/
structure Together (t : SearchTree Bytes) (str : Bytes) : Prop where
  cut : SearchTree.Cut (fun key => stringCasecmp key str) t.toList
  above : forall a, a ∈ t.toList ->
    (foldedReading toLower).startsWith str a = true ->
      0 ≤ stringCasecmp a str
  together : t.toList.Pairwise (fun a b => 0 ≤ stringCasecmp a str ->
    (foldedReading toLower).startsWith str b = true ->
      (foldedReading toLower).startsWith str a = true)

/-- What the comparison functions rely on. -/
def Comparable : Request -> Prop
  | q@(tree t caseSensitive str _) =>
      if caseSensitive then SearchTree.Ascending stringCmp t.toList
      else Foldable toLower q ∧ Together toLower t str
  | q@(file _ _ _) => q.caseSensitive = false -> Foldable toLower q

end

end Request

/-!
## Nodes
-/

section

variable {U : Type} [DecidableEq U] {r : Reading U} {toLower : ToLower}
  {caseSensitive : Bool} {t : SearchTree Bytes} {str : Bytes}
  {restrictLen : Nat}

end

/-!
## Nodes in their order
-/

namespace Request

variable {toLower : ToLower}

end Request

/-!
## Files
-/

section

variable {U : Type} [DecidableEq U] {r : Reading U} {toLower : ToLower}
  {fs : FileSystem} {filename : Bytes} {fileTest : FileTest}

namespace Request

end Request

end

/-!
## Case matters
-/

namespace Request

variable {toLower : ToLower}

end Request

end Completion
end SciTECO
