/-
The grammar of the command line, said without the reading of it. Arguments come
in groups: a flag with the argument after it, a flag alone, or an argument that
is no flag. Whether an argument is a flag depends on where it stands, so
`--store --trace` is one group of two arguments; still no list of arguments can
be cut into groups in two ways.

Honestly told, the positionals are the odd part. An empty one is read over as
long as no script is named, and refused afterwards. Groups of different options
have nothing to do with one another, so all that counts is what is given for
each option, in order, and the positionals, in order (`parse_readsGroups`).
-/
import CacheScript.CommandLine

namespace CacheScript

namespace CommandLine

/-- The arguments that are not positionals where an option is looked for. -/
def flags : List String :=
  ["--data-dir", "--store", "--input", "--trace", "-h", "--help"]

/-- Arguments that belong together. What is given for an option is the next
argument, whatever it looks like. -/
inductive Group where
  | dataDir (value : String)
  | store (value : String)
  | input (text : String) (value : Json) (reads : Json.parse? text = some value)
  | trace
  | positional (word : String) (bare : word ∉ flags)

namespace Group

/-- The option of a group. -/
def flag? : Group → Option String
  | dataDir _ => some "--data-dir"
  | store _ => some "--store"
  | input .. => some "--input"
  | trace => some "--trace"
  | positional .. => none

/-- The arguments of a group. -/
def arguments : Group → List String
  | dataDir value => ["--data-dir", value]
  | store value => ["--store", value]
  | input text .. => ["--input", text]
  | trace => ["--trace"]
  | positional word _ => [word]

/-! What a group gives for each option, and as a positional. -/

def dataDir? : Group → Option String
  | dataDir value => some value
  | _ => none

def store? : Group → Option String
  | store value => some value
  | _ => none

def input? : Group → Option Json
  | input _ value _ => some value
  | _ => none

def word? : Group → Option String
  | positional word _ => some word
  | _ => none

end Group

/-- The arguments of groups one after the other. -/
def written (groups : List Group) : List String :=
  groups.flatMap Group.arguments

/-- All words are empty but the last, which can be any. -/
def BlankUntil (words : List String) (last : String) : Prop :=
  ∃ blanks, (∀ word ∈ blanks, word = "") ∧ words = blanks ++ [last]

/-- The positionals name a script: it is the only one that is not empty, and
there is none after it. -/
def NamesScript (groups : List Group) (script : String) : Prop :=
  script ≠ "" ∧ BlankUntil (groups.filterMap Group.word?) script

/-- What groups give last, or what holds when they give nothing. -/
def lastGiven {α : Type} (given? : Group → Option α) (groups : List Group) (fallback : α) : α :=
  (groups.filterMap given?).getLastD fallback

/-- What groups say: the script that they name, and for each option what was
given last or what holds when nothing is given. -/
structure Say (groups : List Group) (o : Options) : Prop where
  script : NamesScript groups o.script
  dataDir : o.dataDir = lastGiven Group.dataDir? groups "data"
  store : o.store = lastGiven Group.store? groups "default"
  input : o.input = lastGiven Group.input? groups (.obj [])
  trace : o.trace = true ↔ Group.trace ∈ groups

/-- The same groups in another order, but for those of one option and for the
positionals, which follow one another as they did. -/
def Reordered (groups others : List Group) : Prop :=
  ∀ flag?, groups.filter (·.flag? = flag?) = others.filter (·.flag? = flag?)

theorem lastGiven_cons {α : Type} (given? : Group → Option α) (g : Group) (groups : List Group) (fallback : α) :
    lastGiven given? (g :: groups) fallback = lastGiven given? groups ((given? g).getD fallback) := by
  cases hg : given? g with
  | none => rw [lastGiven, List.filterMap_cons_none hg, lastGiven, Option.getD_none]
  | some value => rw [lastGiven, List.filterMap_cons_some hg, List.getLastD_cons, lastGiven, Option.getD_some]

theorem not_blankUntil_nil (last : String) : ¬ BlankUntil [] last := by
  rintro ⟨blanks, -, hwords⟩
  exact List.append_ne_nil_of_right_ne_nil _ (List.cons_ne_nil _ _) hwords.symm

theorem blankUntil_cons {word last : String} {words : List String} :
    BlankUntil (word :: words) last ↔ (words = [] ∧ last = word) ∨ (word = "" ∧ BlankUntil words last) := by
  constructor
  · rintro ⟨blanks, hblanks, hwords⟩
    cases blanks with
    | nil =>
      cases hwords
      exact .inl ⟨rfl, rfl⟩
    | cons blank blanks =>
      cases hwords
      rw [List.forall_mem_cons] at hblanks
      exact .inr ⟨hblanks.1, blanks, hblanks.2, rfl⟩
  · rintro (⟨rfl, rfl⟩ | ⟨rfl, blanks, hblanks, rfl⟩)
    · exact ⟨[], List.forall_mem_nil _, rfl⟩
    · exact ⟨"" :: blanks, List.forall_mem_cons.2 ⟨rfl, hblanks⟩, rfl⟩

theorem BlankUntil.unique {words : List String} {last other : String} (h : BlankUntil words last)
    (hother : BlankUntil words other) : last = other := by
  obtain ⟨blanks, -, hwords⟩ := h
  obtain ⟨others, -, hothers⟩ := hother
  have hlast : (blanks ++ [last]).getLast? = (others ++ [other]).getLast? := by rw [← hwords, ← hothers]
  rw [List.getLast?_concat, List.getLast?_concat] at hlast
  exact Option.some.inj hlast

/-! ## Reading groups -/

/-- The script that words name one after the other, when one was named before
them or none (`""`). -/
def scriptAmong (script : String) : List String → Except Refusal String
  | [] => if script = "" then .error .help else .ok script
  | word :: words => if script = "" then scriptAmong word words else .error (.unexpected word)

theorem scriptAmong_of_ne {script : String} (h : script ≠ "") {words : List String} {named : String} :
    scriptAmong script words = .ok named ↔ words = [] ∧ named = script := by
  cases words with
  | nil => simp [scriptAmong, h, eq_comm]
  | cons word words => simp [scriptAmong, h]

theorem scriptAmong_eq_ok_iff {words : List String} {named : String} :
    scriptAmong "" words = .ok named ↔ named ≠ "" ∧ BlankUntil words named := by
  induction words with
  | nil => simp [scriptAmong, not_blankUntil_nil]
  | cons word words ih =>
    rw [scriptAmong, if_pos rfl, blankUntil_cons]
    by_cases hword : word = ""
    · -- The word is read over: it cannot be the script itself.
      rw [hword, ih]
      refine and_congr_right fun hnamed => ?_
      simp [hnamed]
    · -- The word is the script, so none may come after it.
      rw [scriptAmong_of_ne hword]
      constructor
      · rintro ⟨rfl, rfl⟩
        exact ⟨hword, .inl ⟨rfl, rfl⟩⟩
      · rintro ⟨-, hlast | ⟨hblank, -⟩⟩
        · exact hlast
        · exact absurd hblank hword

/-- Options that groups were read into, with the script that they name. -/
def Options.after (o : Options) (groups : List Group) (script : String) : Options where
  script
  dataDir := lastGiven Group.dataDir? groups o.dataDir
  store := lastGiven Group.store? groups o.store
  input := lastGiven Group.input? groups o.input
  trace := o.trace || groups.any (·.flag? = some "--trace")

/-- What one group does to the options. -/
def Group.read (o : Options) : Group → Except Refusal Options
  | dataDir value => .ok { o with dataDir := value }
  | store value => .ok { o with store := value }
  | input _ value _ => .ok { o with input := value }
  | trace => .ok { o with trace := true }
  | positional word _ => if o.script = "" then .ok { o with script := word } else .error (.unexpected word)

theorem parseFrom_positional {word : String} (h : word ∉ flags) (o : Options) (args : List String) :
    parseFrom o (word :: args) =
      if o.script = "" then parseFrom { o with script := word } args else .error (.unexpected word) := by
  simp only [flags, List.mem_cons, List.not_mem_nil, or_false, not_or] at h
  obtain ⟨hdataDir, hstore, hinput, htrace, hshort, hhelp⟩ := h
  rw [parseFrom.eq_def]
  simp only [if_neg hdataDir, if_neg hstore, if_neg hinput, if_neg htrace, if_neg (not_or.2 ⟨hshort, hhelp⟩)]

/-- One group is read as a whole, whatever comes after it. -/
theorem parseFrom_arguments (o : Options) (g : Group) (args : List String) :
    parseFrom o (g.arguments ++ args) = (g.read o).bind fun o => parseFrom o args := by
  cases g with
  | dataDir value => simp [Group.arguments, Group.read, parseFrom, Except.bind]
  | store value => simp [Group.arguments, Group.read, parseFrom, Except.bind]
  | input text value reads => simp [Group.arguments, Group.read, parseFrom, reads, Except.bind]
  | trace =>
    rw [Group.arguments, List.singleton_append, parseFrom.eq_def]
    rfl
  | positional word bare =>
    rw [Group.arguments, List.singleton_append, parseFrom_positional bare, Group.read]
    split <;> rfl

theorem scriptAmong_cons (o : Options) (g : Group) (groups : List Group) :
    scriptAmong o.script ((g :: groups).filterMap Group.word?) =
      (g.read o).bind fun next => scriptAmong next.script (groups.filterMap Group.word?) := by
  cases g with
  | dataDir | store | input | trace => rfl
  | positional word bare =>
    rw [List.filterMap_cons, Group.word?, scriptAmong, Group.read]
    split <;> rfl

theorem Options.after_nil (o : Options) : o.after [] o.script = o := by
  simp [after, lastGiven]

theorem Options.after_cons {o next : Options} {g : Group} (h : g.read o = .ok next) (groups : List Group) :
    o.after (g :: groups) = next.after groups := by
  funext script
  simp only [after, lastGiven_cons, List.any_cons]
  cases g with
  | dataDir | store | input =>
    cases h
    rfl
  | trace =>
    cases h
    simp [Group.dataDir?, Group.store?, Group.input?, Group.flag?]
  | positional word bare =>
    by_cases hscript : o.script = ""
    · rw [Group.read, if_pos hscript] at h
      cases h
      rfl
    · rw [Group.read, if_neg hscript] at h
      cases h

/-- Groups are read option by option: the script depends on the positionals
alone, and what is said for an option on its own groups alone. -/
theorem parseFrom_written (o : Options) (groups : List Group) :
    parseFrom o (written groups) =
      (scriptAmong o.script (groups.filterMap Group.word?)).map (o.after groups) := by
  induction groups generalizing o with
  | nil =>
    rw [written, List.flatMap_nil, List.filterMap_nil, parseFrom, scriptAmong]
    split
    · rfl
    · rw [Except.map, Options.after_nil]
  | cons g groups ih =>
    rw [written, List.flatMap_cons, parseFrom_arguments, ← written, scriptAmong_cons]
    cases hread : g.read o with
    | error refusal => rfl
    | ok next =>
      -- The script that is named stands in for the one in the options, so `after` need not follow it.
      rw [Options.after_cons hread]
      exact ih next

theorem Group.flag?_eq_trace_iff {g : Group} : g.flag? = some "--trace" ↔ g = .trace := by
  cases g <;> simp [flag?]

theorem say_after {groups : List Group} {script : String} (h : NamesScript groups script) :
    Say groups (Options.default.after groups script) := by
  refine ⟨h, rfl, rfl, rfl, ?_⟩
  simp [Options.after, Options.default, Group.flag?_eq_trace_iff]

/-- Groups say one thing only. -/
theorem Say.unique {groups : List Group} {o other : Options} (h : Say groups o) (hother : Say groups other) :
    o = other := by
  have hscript := h.script.2.unique hother.script.2
  have hdataDir := h.dataDir.trans hother.dataDir.symm
  have hstore := h.store.trans hother.store.symm
  have hinput := h.input.trans hother.input.symm
  have htrace := Bool.eq_iff_iff.2 (h.trace.trans hother.trace.symm)
  cases o
  cases other
  simp_all

theorem parse_written_iff {groups : List Group} {o : Options} :
    parse (written groups) = .ok o ↔ Say groups o := by
  rw [parse, parseFrom_written]
  constructor
  · intro h
    cases hscript : scriptAmong Options.default.script (groups.filterMap Group.word?) with
    | error refusal =>
      rw [hscript] at h
      cases h
    | ok script =>
      rw [hscript] at h
      cases h
      exact say_after (scriptAmong_eq_ok_iff.1 hscript)
  · intro h
    have hscript : scriptAmong Options.default.script (groups.filterMap Group.word?) = .ok o.script :=
      scriptAmong_eq_ok_iff.2 h.script
    rw [hscript]
    exact congrArg Except.ok ((say_after h.script).unique h)

/-! ## Cutting arguments into groups -/

/-- What is accepted can be cut into groups. -/
theorem exists_written_of_parseFrom {o read : Options} {args : List String} (h : parseFrom o args = .ok read) :
    ∃ groups, written groups = args := by
  fun_induction parseFrom o args with
  | case1 | case2 => exact ⟨[], rfl⟩
  | case4 o value args ih =>
    obtain ⟨groups, rfl⟩ := ih h
    exact ⟨.dataDir value :: groups, rfl⟩
  | case6 o value args _ ih =>
    obtain ⟨groups, rfl⟩ := ih h
    exact ⟨.store value :: groups, rfl⟩
  | case9 o text args value reads _ _ ih =>
    obtain ⟨groups, rfl⟩ := ih h
    exact ⟨.input text value reads :: groups, rfl⟩
  | case10 o args _ _ _ ih =>
    obtain ⟨groups, rfl⟩ := ih h
    exact ⟨.trace :: groups, rfl⟩
  | case12 o word args hdataDir hstore hinput htrace hhelp _ ih =>
    obtain ⟨groups, rfl⟩ := ih h
    have hbare : word ∉ flags := by simp [flags, hdataDir, hstore, hinput, htrace, not_or.1 hhelp]
    exact ⟨.positional word hbare :: groups, rfl⟩
  -- A flag without its value, an input that is no document, a call for help, a positional too many.
  | case3 | case5 | case7 | case8 | case11 | case13 => cases h

/-- The first argument of a group tells which option it is for. -/
theorem Group.exists_arguments_eq (g : Group) :
    ∃ first given, g.arguments = first :: given ∧ g.flag? = if first ∈ flags then some first else none := by
  cases g with
  | dataDir value => exact ⟨"--data-dir", [value], rfl, rfl⟩
  | store value => exact ⟨"--store", [value], rfl, rfl⟩
  | input text value reads => exact ⟨"--input", [text], rfl, rfl⟩
  | trace => exact ⟨"--trace", [], rfl, rfl⟩
  | positional word bare => exact ⟨word, [], rfl, (if_neg bare).symm⟩

theorem Group.arguments_append_inj {g other : Group} {args rest : List String}
    (h : g.arguments ++ args = other.arguments ++ rest) : g = other ∧ args = rest := by
  have hflag : g.flag? = other.flag? := by
    obtain ⟨first, given, harguments, hfirst⟩ := g.exists_arguments_eq
    obtain ⟨first', given', harguments', hfirst'⟩ := other.exists_arguments_eq
    rw [harguments, harguments', List.cons_append, List.cons_append] at h
    rw [hfirst, hfirst', (List.cons.inj h).1]
  cases g with
  | dataDir value =>
    cases other with
    | dataDir => simpa [arguments] using h
    | store | input | trace | positional => simp [flag?] at hflag
  | store value =>
    cases other with
    | store => simpa [arguments] using h
    | dataDir | input | trace | positional => simp [flag?] at hflag
  | input text value reads =>
    cases other with
    | input text' value' reads' =>
      obtain ⟨rfl, hargs⟩ : text = text' ∧ args = rest := by simpa [arguments] using h
      have hvalue : value = value' := Option.some.inj (reads.symm.trans reads')
      subst hvalue
      exact ⟨rfl, hargs⟩
    | dataDir | store | trace | positional => simp [flag?] at hflag
  | trace =>
    cases other with
    | trace => simpa [arguments] using h
    | dataDir | store | input | positional => simp [flag?] at hflag
  | positional word bare =>
    cases other with
    | positional => simpa [arguments] using h
    | dataDir | store | input | trace => simp [flag?] at hflag

theorem written_cons_ne_nil (g : Group) (groups : List Group) : written (g :: groups) ≠ [] := by
  obtain ⟨first, given, harguments, -⟩ := g.exists_arguments_eq
  rw [written, List.flatMap_cons, harguments]
  exact List.cons_ne_nil _ _

/-- No list of arguments can be cut in two ways. -/
theorem written_injective : Function.Injective written := by
  intro groups others h
  induction groups generalizing others with
  | nil =>
    cases others with
    | nil => rfl
    | cons other others => exact absurd h.symm (written_cons_ne_nil other others)
  | cons g groups ih =>
    cases others with
    | nil => exact absurd h (written_cons_ne_nil g groups)
    | cons other others =>
      rw [written, List.flatMap_cons, written, List.flatMap_cons] at h
      obtain ⟨rfl, hrest⟩ := Group.arguments_append_inj h
      rw [ih hrest]

/-! ## Groups in another order -/

variable {groups others : List Group}

/-- What is given for one option only is given in the same order. -/
theorem Reordered.filterMap_eq {α : Type} (h : Reordered groups others) (given? : Group → Option α)
    (flag? : Option String) (hgiven : ∀ g : Group, g.flag? ≠ flag? → given? g = none) :
    groups.filterMap given? = others.filterMap given? := by
  have hown (gs : List Group) : gs.filterMap given? = (gs.filter (·.flag? = flag?)).filterMap given? := by
    rw [List.filterMap_filter]
    congr 1
    funext g
    by_cases hg : g.flag? = flag?
    · simp [hg]
    · simp [hg, hgiven g hg]
  rw [hown groups, h, ← hown others]

/-- Nothing is added and nothing is left out. -/
theorem Reordered.perm (h : Reordered groups others) : groups.Perm others := by
  classical
  refine List.perm_iff_count.2 fun g => ?_
  have hown (gs : List Group) : gs.count g = (gs.filter (·.flag? = g.flag?)).count g :=
    (List.count_filter (by simp)).symm
  rw [hown groups, h, ← hown others]

theorem Reordered.words_eq (h : Reordered groups others) :
    groups.filterMap Group.word? = others.filterMap Group.word? := by
  refine h.filterMap_eq Group.word? none fun g hg => ?_
  cases g with
  | dataDir | store | input | trace => rfl
  | positional => exact absurd rfl hg

theorem Reordered.after_eq (h : Reordered groups others) (o : Options) : o.after groups = o.after others := by
  have hdataDir := h.filterMap_eq Group.dataDir? (some "--data-dir") fun g hg => by
    cases g with
    | dataDir => exact absurd rfl hg
    | store | input | trace | positional => rfl
  have hstore := h.filterMap_eq Group.store? (some "--store") fun g hg => by
    cases g with
    | store => exact absurd rfl hg
    | dataDir | input | trace | positional => rfl
  have hinput := h.filterMap_eq Group.input? (some "--input") fun g hg => by
    cases g with
    | input => exact absurd rfl hg
    | dataDir | store | trace | positional => rfl
  funext script
  rw [Options.after, lastGiven, lastGiven, lastGiven, hdataDir, hstore, hinput, h.perm.any_eq]
  rfl

theorem Reordered.parse_eq (h : Reordered groups others) : parse (written others) = parse (written groups) := by
  rw [parse, parseFrom_written, ← h.words_eq, ← h.after_eq, parse, parseFrom_written]

/-- **The command line is read as its grammar says.** Arguments are accepted
exactly when they can be cut into groups of which one is the script, with
nothing but empty positionals before it and no positional after it. They can be
cut in one way at most, the options are then what the groups say, and groups of
different options can change places. -/
theorem parse_readsGroups :
    (∀ args, (∃ o, parse args = .ok o) ↔ ∃ groups, written groups = args ∧ ∃ script, NamesScript groups script) ∧
      Function.Injective written ∧
      (∀ groups o, parse (written groups) = .ok o ↔ Say groups o) ∧
      ∀ groups others, Reordered groups others → parse (written others) = parse (written groups) := by
  refine ⟨fun args => ⟨?_, ?_⟩, written_injective, fun _ _ => parse_written_iff, fun _ _ h => h.parse_eq⟩
  · rintro ⟨o, ho⟩
    obtain ⟨groups, rfl⟩ := exists_written_of_parseFrom ho
    exact ⟨groups, rfl, o.script, (parse_written_iff.1 ho).script⟩
  · rintro ⟨groups, rfl, script, hscript⟩
    exact ⟨_, parse_written_iff.2 (say_after hscript)⟩

/-- Flags in the place of values, an empty positional before the script, and
an option that is given twice: the last store counts, and it still does when the
groups are in another order. -/
theorem parse_readsGroups_overriding :
    let o : Options := ⟨"run.json", "data", "-h", .arr [.bool true], true⟩
    let input : Group := .input "[true]" (.arr [.bool true]) (by cbv)
    let empty : Group := .positional "" (by decide)
    let script : Group := .positional "run.json" (by decide)
    let groups := [.store "--trace", empty, input, script, .trace, .store "-h"]
    let others := [.trace, empty, .store "--trace", .store "-h", script, input]
    written groups = ["--store", "--trace", "", "--input", "[true]", "run.json", "--trace", "--store", "-h"] ∧
      written others = ["--trace", "", "--store", "--trace", "--store", "-h", "run.json", "--input", "[true]"] ∧
      Say groups o ∧ Reordered groups others ∧ parse (written groups) = .ok o ∧ parse (written others) = .ok o := by
  intro o input empty script groups others
  obtain ⟨-, -, hsay, hreordered⟩ := parse_readsGroups
  have hscript : NamesScript groups "run.json" :=
    ⟨by decide, [""], List.forall_mem_singleton.2 rfl, rfl⟩
  have hsays : Say groups o := ⟨hscript, rfl, rfl, rfl, by simp [o, groups]⟩
  have hothers : Reordered groups others := by
    intro flag?
    by_cases hflag : flag? ∈ [some "--store", some "--input", some "--trace", none]
    · simp only [List.mem_cons, List.not_mem_nil, or_false] at hflag
      rcases hflag with rfl | rfl | rfl | rfl <;> rfl
    · simp only [List.mem_cons, List.not_mem_nil, or_false, not_or] at hflag
      simp [groups, others, input, empty, script, Group.flag?, eq_comm, hflag]
  have hread : parse (written groups) = .ok o := (hsay groups o).2 hsays
  exact ⟨rfl, rfl, hsays, hothers, hread, (hreordered groups others hothers).trans hread⟩

end CommandLine

end CacheScript
