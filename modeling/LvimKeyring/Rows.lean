import Mathlib.Algebra.Group.Nat.Defs
import Mathlib.Tactic.Common
import LvimKeyring.Lib.LuaPattern
import LvimKeyring.Server

/-!
The rows of the wallet panel.

A name is filed under its first segment. An entry row has a badge, the rest of the name, and what
is known of the entry besides its value.
-/

namespace LvimKeyring.Rows

open LuaPattern
open Server (Summary EntryMeta)

/-! ### Names -/

def noSlash (c : Char) : Bool := c != '/'

/-- `^([^/]+)/` -/
def firstSegment : List (Item Char) := [.enter, .plus noSlash, .leave, .one (· == '/')]

/-- `^[^/]+/(.+)$` -/
def otherSegments : List (Item Char) :=
  [.plus noSlash, .one (· == '/'), .enter, .plus fun _ => true, .leave, .done]

/-- The first capture of a match. -/
def capture (ps : List (Item Char)) (s : String) : Option String :=
  (captures ps s.toList).bind fun caps => caps.head?.map String.ofList

/-- `M.namespace` -/
def namespaceOf (name : String) : String := (capture firstSegment name).getD "common"

def displayName (name : String) : String := (capture otherSegments name).getD name

/-! ### The registered parents -/

structure Namespace where
  accent : Option String
  icon : Option String
  deriving DecidableEq

/-- The table `reg`, without the order of its keys. -/
abbrev Registry := List (String × Namespace)

def Registry.get (reg : Registry) (name : String) : Option Namespace := reg.lookup name

/-- `config.colors` -/
structure Colors where
  common : String
  default : String

/-- `ns:gsub("^%l", string.upper):gsub("[^%w]", "")` -/
def suffix (ns : String) : String :=
  let capital : List Char :=
    match ns.toList with
    | [] => []
    | c :: cs => (if c.isLower then c.toUpper else c) :: cs
  String.ofList (capital.filter Char.isAlphanum)

def badgeGroup (sfx : String) : String := "LvimKeyringBadge" ++ sfx

def nameGroup (sfx : String) : String := "LvimKeyringName" ++ sfx

/-! ### What a row is drawn with -/

/-- The settings, the registered parents, how many cells a text takes, and the time. -/
structure Theme where
  entryIcon : String
  expandOpen : String
  expandClosed : String
  colors : Colors
  addKey : String
  registry : Registry
  strdisplaywidth : String → ℕ
  now : ℕ

/-- At most `n` characters. -/
def clip (s : String) (n : ℕ) : String :=
  if s.length ≤ n then s else String.ofList (s.toList.take (n - 1)) ++ "…"

def accent (th : Theme) (ns : String) : String :=
  ((th.registry.get ns).bind (·.accent)).getD
    (if ns = "common" then th.colors.common else th.colors.default)

def icon (th : Theme) (ns : String) : String :=
  ((th.registry.get ns).bind (·.icon)).getD th.entryIcon

def groupSuffix (th : Theme) (ns : String) : String :=
  match th.registry.get ns with
  | some _ => suffix ns
  | none => if ns = "common" then "Common" else "Default"

/-- How long ago, from seconds; nothing when it is unknown. -/
def ago (now updated : ℕ) : String :=
  let d := now - updated
  if updated = 0 then ""
  else if d < 60 then "just now"
  else if d < 3600 then toString (d / 60) ++ "m ago"
  else if d < 86400 then toString (d / 3600) ++ "h ago"
  else toString (d / 86400) ++ "d ago"

/-- A text that is not empty. -/
def str (v : Option String) : Option String := v.filter (· ≠ "")

/-- The metadata of a row, and the time. -/
def metaText (now : ℕ) (info : EntryMeta) : String × String :=
  let parts := (str info.user).toList ++ ((str info.url).map fun url => clip url 40).toList
  ("  ·  ".intercalate parts, ago now info.updated)

def badge (glyph : String) : String := " " ++ glyph ++ " "

/-! ### Rows -/

/-- Bytes of a label, from the first to before the last, in a highlight group. -/
structure Span where
  start : ℕ
  stop : ℕ
  group : String
  deriving DecidableEq

structure EntryRow where
  name : String
  icon : String
  iconHl : String
  label : String
  spans : List Span
  entry : Summary
  deriving DecidableEq

structure Section where
  name : String
  icon : String
  boxHl : String
  label : String
  count : ℕ
  accent : String
  expanded : Bool
  children : List EntryRow
  deriving DecidableEq

inductive Row
  | empty (label : String)
  | section (s : Section)
  deriving DecidableEq

def emptyName : String := "kr_empty"

def Row.name : Row → String
  | .empty _ => emptyName
  | .section s => s.name

/-- The lines of a row, with the entry that a line picks. -/
def Row.lines : Row → List (String × Option Summary)
  | .empty _ => [(emptyName, none)]
  | .section s =>
    (s.name, none) :: if s.expanded then s.children.map fun r => (r.name, some r.entry) else []

def Section.flip (s : Section) : Section := { s with expanded := !s.expanded }

def rowName (name : String) : String := "kr__" ++ name

def sectionName (ns : String) : String := "kr_sec_" ++ ns

/-- `M.section` -/
def sectionRow (th : Theme) (ns label : String) (count : ℕ) (expanded : Bool)
    (children : List EntryRow) (accent badgeHl : String) : Section where
  name := ns
  icon := badge (if expanded then th.expandOpen else th.expandClosed)
  boxHl := badgeHl
  label := label
  count := count
  accent := accent
  expanded := expanded
  children := children

/-- A piece after a label, two cells away, in a group of its own. -/
def extend (group piece : String) (l : String × List Span) : String × List Span :=
  if piece = "" then l
  else
    let start := l.1.utf8ByteSize + 2
    (l.1 ++ "  " ++ piece, l.2 ++ [⟨start, start + piece.utf8ByteSize, group⟩])

/-- `M.entry_row`, apart from the registration of the entry. -/
def entryRow (th : Theme) (e : Summary) (namew : ℕ) : EntryRow :=
  let ns := namespaceOf e.name
  let sfx := groupSuffix th ns
  let dn := clip (displayName e.name) 48
  let (info, rel) := metaText th.now e.info
  let label := dn ++ String.ofList (.replicate (namew - th.strdisplaywidth dn) ' ')
  let named := (label, [⟨0, dn.utf8ByteSize, nameGroup sfx⟩])
  let (label, spans) := extend "LvimKeyringTime" rel (extend "LvimKeyringMeta" info named)
  { name := rowName e.name, icon := badge (icon th ns), iconHl := badgeGroup sfx, label, spans
    entry := e }

/-- The widest display name, for the alignment. -/
def nameWidth (th : Theme) (entries : List Summary) : ℕ :=
  min ((entries.map fun e => th.strdisplaywidth (displayName e.name)).foldl max 1) 48

end LvimKeyring.Rows
