/-
Sources of words: four lists of words for a text analyser, either given in
the configuration itself or read from files that it names. A list in the
configuration has commas between its items; a file has a word a line, with
blank lines and comments between them.

A source is configured any number of times, from properties or from an element
over them. Each time its settings are overwritten one after the other.
-/
import CacheScript.Files
import CacheScript.Log
import CacheScript.Properties
import CacheScript.Text.Lines

namespace CacheScript

/-- The lists of a source: the main words, the quantifiers, further words, and
the words to pass over. -/
inductive WordList where
  | main
  | quantifier
  | ext
  | stop
deriving DecidableEq

namespace WordList

/-- Every list, in the order in which they are configured. -/
def all : List WordList :=
  [main, quantifier, ext, stop]

/-- The property that a list is configured from. -/
def name : WordList → String
  | main => "main"
  | quantifier => "quantifier"
  | ext => "ext"
  | stop => "stop"

end WordList

/-- Four lists of texts. -/
structure WordLists where
  main : List String
  quantifier : List String
  ext : List String
  stop : List String
deriving DecidableEq

namespace WordLists

/-- Four lists with nothing in them. -/
def empty : WordLists := ⟨[], [], [], []⟩

/-- One of the lists. -/
def get (lists : WordLists) : WordList → List String
  | .main => lists.main
  | .quantifier => lists.quantifier
  | .ext => lists.ext
  | .stop => lists.stop

/-- Overwrite one of the lists. -/
def set (lists : WordLists) (list : WordList) (texts : List String) : WordLists :=
  match list with
  | .main => { lists with main := texts }
  | .quantifier => { lists with quantifier := texts }
  | .ext => { lists with ext := texts }
  | .stop => { lists with stop := texts }

theorem get_set (lists : WordLists) (list other : WordList) (texts : List String) :
    (lists.set list texts).get other = if other = list then texts else lists.get other := by
  cases list <;> cases other <;> rfl

theorem ext_get {lists others : WordLists} (h : ∀ list, lists.get list = others.get list) : lists = others := by
  cases lists
  cases others
  exact WordLists.mk.injEq .. ▸ ⟨h .main, h .quantifier, h .ext, h .stop⟩

end WordLists

/-- A source. -/
inductive WordSource where
  | inline (words : WordLists)
  /-- The names of files below a home directory. -/
  | files (home : String) (names : WordLists)
deriving DecidableEq

namespace WordSource

/-- The kinds of sources. -/
inductive Kind where
  | inline
  | files
deriving DecidableEq

/-- The kind of a source. -/
def kind : WordSource → Kind
  | inline _ => .inline
  | files _ _ => .files

/-- A source that was not configured yet. -/
def new : Kind → WordSource
  | .inline => inline .empty
  | .files => files "" .empty

/-- What a list is configured from when no property says so. -/
def Kind.default : Kind → WordList → String
  | files, .main => "main.dic"
  | files, .quantifier => "quantifier.dic"
  | _, _ => ""

/-- The items of a list with commas, trimmed; empty items do not count. -/
def splitList (text : String) : List String :=
  (Text.pieces ',' (fun item => item ≠ []) text.toList).map String.ofList

/-- A trimmed line that is a word: it is not empty and no comment. -/
def isEntry (line : List Char) : Bool :=
  line ≠ [] ∧ line.head? ≠ some '#'

/-- The words of a file's text: its lines, trimmed, without empty ones and
those that start with `#`. -/
def wordsOf (text : String) : List String :=
  (((Text.lines text.toList).map Text.trimChars).filter isEntry).map String.ofList

/-- The item texts of a list in properties. -/
def configured (p : Properties) (kind : Kind) (list : WordList) : List String :=
  splitList (p.getString list.name (kind.default list))

/-- Four lists, overwritten one after the other. -/
def overwrite (p : Properties) (kind : Kind) (lists : WordLists) : WordLists :=
  WordList.all.foldl (fun lists list => lists.set list (configured p kind list)) lists

/-- The source configured anew. -/
def reconfigure (source : WordSource) (p : Properties) : WordSource :=
  match source with
  | inline words => inline (overwrite p .inline words)
  | files _ names => files (p.getString "home" ".") (overwrite p .files names)

/-- The source configured anew from an element over its parent's
properties. -/
def reconfigureElement (source : WordSource) (element : Json) (parent : Properties) : WordSource :=
  source.reconfigure (Properties.ofElement element parent)

/-- The line that tells of a file that cannot be read, without the system's own
words for why. -/
def failureLine (path : String) : Log.Line :=
  Log.line .words .error ("Failed to load dictionary " ++ path)

/-- The words of files in order, and a line for each that cannot be read. -/
def readAll (fs : FileSystem) (home : String) : List String → List String × List Log.Line
  | [] => ([], [])
  | name :: names =>
    let (words, lines) := readAll fs home names
    match fs (joinPath home name) with
    | .text text => (wordsOf text ++ words, lines)
    | _ => (words, failureLine (joinPath home name) :: lines)

/-- One of the four lists, as it is asked for. -/
def query (fs : FileSystem) (source : WordSource) (list : WordList) : List String × List Log.Line :=
  match source with
  | inline words => (words.get list, [])
  | files home names => readAll fs home (names.get list)

/-- All four lists, asked for in order. -/
def queryAll (fs : FileSystem) (source : WordSource) : WordLists × List Log.Line :=
  let (main, log₁) := source.query fs .main
  let (quantifier, log₂) := source.query fs .quantifier
  let (ext, log₃) := source.query fs .ext
  let (stop, log₄) := source.query fs .stop
  (⟨main, quantifier, ext, stop⟩, log₁ ++ log₂ ++ log₃ ++ log₄)

/-- The kind that a name stands for. -/
def Kind.ofName? (name : String) : Option Kind :=
  if name = "inline" then some .inline
  else if name = "file" then some .files
  else none

/-- The source of a named kind; a name that stands for no kind is logged. -/
def load (name : String) (p : Properties) : Option WordSource × List Log.Line :=
  match Kind.ofName? name with
  | some kind => (some ((new kind).reconfigure p), [])
  | none => (none, [Log.line .words .warn ("Unknown dictionary loader kind: " ++ name)])

end WordSource

end CacheScript
