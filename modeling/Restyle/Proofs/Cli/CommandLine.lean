/-
Restyle.Proofs.Cli.CommandLine — which command lines are understood, and as
what.

A command line is made of items (`Item`): an option with what it takes, or
a file. Reading takes in one item after another (`read_words`), so it comes
behind the items with what they ask for (`read_append`). Whatever is left
then starts with another item, or with an argument at which reading ends
(`exists_item_or_fault`). So every command line is made of items around one
file, or has a first fault behind some items, and these are just the two
ways in which reading ends (`parse_exact`).
-/
import Mathlib.Data.List.Induction
import Mathlib.Data.List.TakeWhile
import Restyle.Cli.Arguments

namespace Restyle.Cli

/-! ## 1. Settings and files -/

/-- A setting is split at its first equals sign. -/
theorem splitSetting_append {key : String} (h : '=' ∉ key.toList) (value : String) :
    splitSetting (key ++ "=" ++ value) = some (Unicode.trim key, Unicode.trim value) := by
  have hkey : ∀ c ∈ key.toList, decide (c ≠ '=') = true := fun c hc =>
    decide_eq_true fun heq => h (heq ▸ hc)
  have hdrop : (key.toList ++ '=' :: value.toList).dropWhile (· ≠ '=') = '=' :: value.toList := by
    rw [List.dropWhile_append_of_pos hkey, List.dropWhile_cons_of_neg (by decide)]
  have htake : (key.toList ++ '=' :: value.toList).takeWhile (· ≠ '=') = key.toList := by
    rw [List.takeWhile_append_of_pos hkey, List.takeWhile_cons_of_neg (by decide),
      List.append_nil]
  have htext : (key ++ "=" ++ value).toList = key.toList ++ '=' :: value.toList := by
    simp
  rw [splitSetting, htext]
  simp only [hdrop, htake, String.ofList_toList]

theorem splitSetting_eq_none {text : String} (h : '=' ∉ text.toList) :
    splitSetting text = none := by
  have hall : ∀ c ∈ text.toList, decide (c ≠ '=') = true := fun c hc =>
    decide_eq_true fun heq => h (heq ▸ hc)
  rw [splitSetting]
  simp only [List.dropWhile_eq_nil_iff.2 hall]

/-- A text with an equals sign is cut there. -/
theorem exists_eq_append_of_mem {text : String} (h : '=' ∈ text.toList) :
    ∃ key value, '=' ∉ key.toList ∧ text = key ++ "=" ++ value := by
  obtain ⟨key, value, htext, hkey⟩ := List.eq_append_cons_of_mem h
  refine ⟨String.ofList key, String.ofList value, by simpa using hkey, ?_⟩
  apply String.toList_injective
  simp [htext]

/-- What can name a file: everything but a dash with something behind it. -/
def IsFile (argument : String) : Prop :=
  argument.toList.head? ≠ some '-' ∨ argument = "-" ∨ argument = ""

theorem looksLikeOption_eq_false_iff {argument : String} :
    looksLikeOption argument = false ↔ IsFile argument := by
  have hdash : argument = "-" ↔ argument.toList = ['-'] := String.toList_inj.symm
  have hempty : argument = "" ↔ argument.toList = [] := String.toList_inj.symm
  rw [IsFile, hdash, hempty, looksLikeOption]
  split
  · rename_i c rest htext
    simp [htext]
  · rename_i hno
    refine iff_of_true rfl ?_
    cases htext : argument.toList with
    | nil => simp
    | cons c rest =>
      by_cases hc : c = '-'
      · subst hc
        cases rest with
        | nil => simp
        | cons c rest => exact absurd htext (hno c rest)
      · simp [hc]

instance (argument : String) : Decidable (IsFile argument) :=
  inferInstanceAs (Decidable (_ ∨ _ ∨ _))

/-! ## 2. Items -/

/-- The two spellings of each option. -/
def languageOptions : List String := ["-l", "--language"]

def settingOptions : List String := ["-s", "--set"]

def outputOptions : List (String × Output) :=
  [("-t", .tokens), ("--tokens", .tokens), ("-f", .folds), ("--folds", .folds)]

def options : List String := languageOptions ++ settingOptions ++ outputOptions.map Prod.fst

theorem not_isFile_of_mem_options : ∀ option ∈ options, ¬ IsFile option := by
  decide +kernel

/-- A part of a command line: an option with what it takes, or a file. -/
inductive Item where
  | language (option name : String) (hoption : option ∈ languageOptions)
  | setting (option key value : String) (hoption : option ∈ settingOptions)
      (hkey : '=' ∉ key.toList)
  | output (option : String) (kind : Output) (hoption : (option, kind) ∈ outputOptions)
  | file (name : String) (hname : IsFile name)

namespace Item

/-- The arguments that it is written as. -/
def words : Item → List String
  | language option name _ => [option, name]
  | setting option key value _ _ => [option, key ++ "=" ++ value]
  | output option _ _ => [option]
  | file name _ => [name]

def language? : Item → Option String
  | language _ name _ => some name
  | _ => none

/-- The setting that it makes, without white space at the ends. -/
def setting? : Item → Option (String × String)
  | setting _ key value _ _ => some (Unicode.trim key, Unicode.trim value)
  | _ => none

def output? : Item → Option Output
  | output _ kind _ => some kind
  | _ => none

def file? : Item → Option String
  | file name _ => some name
  | _ => none

end Item

/-- The files among items. -/
def files (items : List Item) : List String := items.filterMap Item.file?

/-- What items ask for around a file: the last language, all settings, and the last kind of
output. -/
def asked (items : List Item) (file : String) : Options where
  language := (items.filterMap Item.language?).getLast?
  properties := items.filterMap Item.setting?
  output := (items.filterMap Item.output?).getLast?.getD .coloured
  file := file

/-- Why reading ends at the first of the arguments that are left, behind the files known so far.
Only at the end a file is missed. -/
inductive Fault (known : List String) : List String → UsageError → Prop where
  | needsLanguage {option : String} (hoption : option ∈ languageOptions) :
      Fault known [option] (.needsLanguage option)
  | needsSetting {option : String} (hoption : option ∈ settingOptions) :
      Fault known [option] (.needsSetting option)
  | notSetting {option setting : String} {rest : List String} (hoption : option ∈ settingOptions)
      (hsetting : '=' ∉ setting.toList) :
      Fault known (option :: setting :: rest) (.notSetting setting)
  | unknownOption {argument : String} {rest : List String} (hunknown : argument ∉ options)
      (hno : ¬ IsFile argument) : Fault known (argument :: rest) (.unknownOption argument)
  | unexpectedArgument {argument : String} {rest : List String} (hfile : IsFile argument)
      (hknown : known ≠ []) : Fault known (argument :: rest) (.unexpectedArgument argument)
  | noFile (hknown : known = []) : Fault known [] .noFile

/-! ## 3. Reading one item -/

section

variable {d : Draft} {option argument : String} {rest : List String}

/-- A language option takes what follows, and needs it. -/
theorem read_language (h : option ∈ languageOptions) :
    (∀ name rest, read d (option :: name :: rest) = read { d with language := some name } rest)
      ∧ read d [option] = .error (.needsLanguage option) := by
  simp only [languageOptions, List.mem_cons, List.not_mem_nil, or_false] at h
  constructor
  · intro name rest
    rw [read, if_pos h]
  · rw [read, if_pos h]

theorem not_language_of_setting (h : option ∈ settingOptions) :
    ¬ (option = "-l" ∨ option = "--language") := by
  simp only [settingOptions, List.mem_cons, List.not_mem_nil, or_false] at h
  rcases h with rfl | rfl <;> decide

/-- A setting option takes what follows if that is a setting, and needs it. -/
theorem read_setting (h : option ∈ settingOptions) :
    (∀ setting property rest, splitSetting setting = some property →
        read d (option :: setting :: rest)
          = read { d with properties := d.properties ++ [property] } rest)
      ∧ (∀ setting rest, splitSetting setting = none →
        read d (option :: setting :: rest) = .error (.notSetting setting))
      ∧ read d [option] = .error (.needsSetting option) := by
  have hlanguage := not_language_of_setting h
  simp only [settingOptions, List.mem_cons, List.not_mem_nil, or_false] at h
  refine ⟨fun setting property rest hsplit => ?_, fun setting rest hsplit => ?_, ?_⟩
  · rw [read, if_neg hlanguage, if_pos h]
    simp only [hsplit]
  · rw [read, if_neg hlanguage, if_pos h]
    simp only [hsplit]
  · rw [read, if_neg hlanguage, if_pos h]

theorem read_output {kind : Output} (h : (option, kind) ∈ outputOptions) :
    read d (option :: rest) = read { d with output := kind } rest := by
  simp only [outputOptions, List.mem_cons, List.not_mem_nil, or_false, Prod.mk.injEq] at h
  rcases h with ⟨rfl, rfl⟩ | ⟨rfl, rfl⟩ | ⟨rfl, rfl⟩ | ⟨rfl, rfl⟩ <;> rw [read.eq_def] <;> simp

/-- An argument that is no option is taken for a file. -/
theorem read_of_not_mem_options (h : argument ∉ options) :
    read d (argument :: rest) = (d.takeFile argument).bind fun d => read d rest := by
  simp only [options, languageOptions, settingOptions, outputOptions, List.map, List.cons_append,
    List.nil_append, List.mem_cons, List.not_mem_nil, or_false, not_or] at h
  rw [read.eq_def]
  simp only [h, or_self, if_false]
  cases d.takeFile argument <;> rfl

theorem read_unknown (h : argument ∉ options) (hno : ¬ IsFile argument) :
    read d (argument :: rest) = .error (.unknownOption argument) := by
  rw [← looksLikeOption_eq_false_iff, Bool.not_eq_false] at hno
  simp only [read_of_not_mem_options h, Draft.takeFile, if_pos hno, Except.bind]

theorem read_file (h : IsFile argument) :
    read d (argument :: rest)
      = if d.file.isSome then .error (.unexpectedArgument argument)
        else read { d with file := some argument } rest := by
  rw [read_of_not_mem_options fun hoption => not_isFile_of_mem_options _ hoption h,
    Draft.takeFile, looksLikeOption_eq_false_iff.2 h, if_neg Bool.false_ne_true]
  cases d.file <;> rfl

/-- What is understood behind an item. -/
def Draft.add (d : Draft) : Item → Draft
  | .language _ name _ => { d with language := some name }
  | .setting _ key value _ _ =>
    { d with properties := d.properties ++ [(Unicode.trim key, Unicode.trim value)] }
  | .output _ kind _ => { d with output := kind }
  | .file name _ => { d with file := some name }

/-- An item is read unless it is a second file. -/
theorem read_words (i : Item) (h : i.file? = none ∨ d.file = none) :
    read d (i.words ++ rest) = read (d.add i) rest := by
  cases i with
  | language option name hoption => exact (read_language hoption).1 name rest
  | setting option key value hoption hkey =>
    exact (read_setting hoption).1 _ _ rest (splitSetting_append hkey value)
  | output option kind hoption => exact read_output hoption
  | file name hname =>
    have hnone : d.file = none := h.resolve_left (by simp [Item.file?])
    show read d (name :: rest) = _
    rw [read_file hname, hnone]
    rfl

end

/-! ## 4. Reading items -/

theorem draft_foldl_add (items : List Item) :
    items.foldl Draft.add {}
      = { language := (items.filterMap Item.language?).getLast?
          properties := items.filterMap Item.setting?
          output := (items.filterMap Item.output?).getLast?.getD .coloured
          file := (files items).getLast? } := by
  induction items using List.reverseRecOn with
  | nil => rfl
  | append_singleton items i ih =>
    rw [List.foldl_append, ih]
    cases i <;> simp [Draft.add, files, Item.language?, Item.setting?, Item.output?, Item.file?]

theorem files_append_singleton (items : List Item) (i : Item) :
    files (items ++ [i]) = files items ++ i.file?.toList := by
  cases i <;> simp [files, Item.file?]

/-- Items with no more than one file among them are read one after another. -/
theorem read_append {items : List Item} (h : (files items).length ≤ 1) (rest : List String) :
    read {} (items.flatMap Item.words ++ rest) = read (items.foldl Draft.add {}) rest := by
  induction items using List.reverseRecOn generalizing rest with
  | nil => rfl
  | append_singleton items i ih =>
    rw [files_append_singleton, List.length_append] at h
    have hi : i.file? = none ∨ (items.foldl Draft.add {}).file = none := by
      rw [draft_foldl_add]
      cases hfile : i.file? with
      | none => exact Or.inl rfl
      | some name =>
        rw [hfile] at h
        have hnil : files items = [] := List.length_eq_zero_iff.1 (by simpa using h)
        simp [hnil]
    rw [List.flatMap_append, List.append_assoc, ih (by omega), List.foldl_append,
      List.flatMap_singleton, read_words i hi]
    rfl

/-- A command line of items around one file is understood as what they ask for. -/
theorem parse_of_files_eq {items : List Item} {file : String} (h : files items = [file]) :
    parse (items.flatMap Item.words) = .ok (asked items file) := by
  have hread := read_append (Nat.le_of_eq (congrArg List.length h)) []
  rw [List.append_nil, draft_foldl_add, h] at hread
  rw [parse, hread]
  rfl

/-- The first fault behind items is the error. -/
theorem parse_of_fault {items : List Item} {rest : List String} {e : UsageError}
    (hcount : (files items).length ≤ 1) (h : Fault (files items) rest e) :
    parse (items.flatMap Item.words ++ rest) = .error e := by
  have hfile : (items.foldl Draft.add {}).file = (files items).getLast? := by
    rw [draft_foldl_add]
  rw [parse, read_append hcount]
  cases h with
  | needsLanguage hoption => rw [(read_language hoption).2]
  | needsSetting hoption => rw [(read_setting hoption).2.2]
  | notSetting hoption hsetting =>
    rw [(read_setting hoption).2.1 _ _ (splitSetting_eq_none hsetting)]
  | unknownOption hunknown hno => rw [read_unknown hunknown hno]
  | unexpectedArgument hargument hknown =>
    rw [read_file hargument, if_pos (by rw [hfile]; simpa using hknown)]
  | noFile hknown =>
    rw [read]
    dsimp only
    rw [hfile, hknown]
    rfl

/-! ## 5. All command lines -/

/-- Arguments that are left are none, start with an item that can be read, or end reading. -/
theorem exists_item_or_fault {known : List String} (h : known.length ≤ 1) (rest : List String) :
    (rest = [] ∧ known.length = 1)
      ∨ (∃ (i : Item) (rest' : List String),
        rest = i.words ++ rest' ∧ (known ++ i.file?.toList).length ≤ 1)
      ∨ ∃ e, Fault known rest e := by
  cases rest with
  | nil =>
    rcases Nat.le_one_iff_eq_zero_or_eq_one.1 h with hnone | hone
    · exact Or.inr (Or.inr ⟨_, .noFile (List.length_eq_zero_iff.1 hnone)⟩)
    · exact Or.inl ⟨rfl, hone⟩
  | cons argument rest =>
    refine Or.inr ?_
    by_cases hlanguage : argument ∈ languageOptions
    · cases rest with
      | nil => exact Or.inr ⟨_, .needsLanguage hlanguage⟩
      | cons name rest =>
        exact Or.inl ⟨.language argument name hlanguage, rest, rfl, by simpa [Item.file?]⟩
    by_cases hsetting : argument ∈ settingOptions
    · cases rest with
      | nil => exact Or.inr ⟨_, .needsSetting hsetting⟩
      | cons setting rest =>
        by_cases hequals : '=' ∈ setting.toList
        · obtain ⟨key, value, hkey, rfl⟩ := exists_eq_append_of_mem hequals
          exact Or.inl ⟨.setting argument key value hsetting hkey, rest, rfl, by simpa [Item.file?]⟩
        · exact Or.inr ⟨_, .notSetting hsetting hequals⟩
    by_cases houtput : argument ∈ outputOptions.map Prod.fst
    · obtain ⟨⟨option, kind⟩, hkind, rfl⟩ := List.mem_map.1 houtput
      exact Or.inl ⟨.output option kind hkind, rest, rfl, by simpa [Item.file?]⟩
    by_cases hfile : IsFile argument
    · by_cases hknown : known = []
      · exact Or.inl ⟨.file argument hfile, rest, rfl, by simp [hknown, Item.file?]⟩
      · exact Or.inr ⟨_, .unexpectedArgument hfile hknown⟩
    · refine Or.inr ⟨_, .unknownOption ?_ hfile⟩
      simp only [options, List.mem_append, not_or]
      exact ⟨⟨hlanguage, hsetting⟩, houtput⟩

theorem Item.length_words_pos (i : Item) : 0 < i.words.length := by
  cases i <;> simp [words]

/-- Behind items that were read, the rest is items too, or has a fault behind some. -/
theorem exists_items_append {items : List Item} (hcount : (files items).length ≤ 1)
    (rest : List String) :
    ∃ (all : List Item) (rest' : List String),
      items.flatMap Item.words ++ rest = all.flatMap Item.words ++ rest'
        ∧ (files all).length ≤ 1
        ∧ ((rest' = [] ∧ (files all).length = 1) ∨ ∃ e, Fault (files all) rest' e) := by
  induction hn : rest.length using Nat.strong_induction_on generalizing items rest with
  | h n ih =>
    rcases exists_item_or_fault hcount rest with hend | ⟨i, rest', rfl, hi⟩ | hfault
    · exact ⟨items, rest, rfl, hcount, Or.inl hend⟩
    · have hpos := i.length_words_pos
      rw [List.length_append] at hn
      rw [← files_append_singleton] at hi
      obtain ⟨all, rest'', hall, hend⟩ := ih rest'.length (by omega) hi rest' rfl
      rw [List.flatMap_append, List.flatMap_singleton, List.append_assoc] at hall
      exact ⟨all, rest'', hall, hend⟩
    · exact ⟨items, rest, rfl, hcount, Or.inr hfault⟩

/-- A command line is made of items around one file, or has a first fault behind some. -/
theorem items_or_fault (arguments : List String) :
    (∃ (items : List Item) (file : String),
        arguments = items.flatMap Item.words ∧ files items = [file])
      ∨ ∃ (items : List Item) (rest : List String) (e : UsageError),
        arguments = items.flatMap Item.words ++ rest ∧ (files items).length ≤ 1
          ∧ Fault (files items) rest e := by
  obtain ⟨items, rest, harguments, hcount, ⟨rfl, hone⟩ | ⟨e, hfault⟩⟩ :=
    exists_items_append (show (files []).length ≤ 1 from Nat.zero_le 1) arguments
  · obtain ⟨file, hfile⟩ := List.length_eq_one_iff.1 hone
    exact Or.inl ⟨items, file, by simpa using harguments, hfile⟩
  · exact Or.inr ⟨items, rest, e, harguments, hcount, hfault⟩

/-- A command line is understood exactly if it is made of items, in any order, with one file among
them. Then it asks for the last language, all settings in order, the last kind of output and that
file. Otherwise it has a first fault, behind items with no more than one file among them, and that
is the error. -/
theorem parse_exact (arguments : List String) :
    (∀ o, parse arguments = .ok o ↔ ∃ items : List Item,
        arguments = items.flatMap Item.words ∧ files items = [o.file] ∧ o = asked items o.file)
      ∧ ∀ e, parse arguments = .error e ↔ ∃ (items : List Item) (rest : List String),
        arguments = items.flatMap Item.words ++ rest ∧ (files items).length ≤ 1
          ∧ Fault (files items) rest e := by
  refine ⟨fun o => ⟨fun h => ?_, ?_⟩, fun e => ⟨fun h => ?_, ?_⟩⟩
  · obtain ⟨items, file, rfl, hfile⟩ | ⟨items, rest, e, rfl, hcount, hfault⟩ :=
      items_or_fault arguments
    · rw [parse_of_files_eq hfile, Except.ok.injEq] at h
      subst h
      exact ⟨items, rfl, hfile, rfl⟩
    · rw [parse_of_fault hcount hfault] at h
      cases h
  · rintro ⟨items, rfl, hfile, ho⟩
    rw [parse_of_files_eq hfile, ← ho]
  · obtain ⟨items, file, rfl, hfile⟩ | ⟨items, rest, e', rfl, hcount, hfault⟩ :=
      items_or_fault arguments
    · rw [parse_of_files_eq hfile] at h
      cases h
    · rw [parse_of_fault hcount hfault, Except.error.injEq] at h
      subst h
      exact ⟨items, rest, rfl, hcount, hfault⟩
  · rintro ⟨items, rest, rfl, hcount, hfault⟩
    exact parse_of_fault hcount hfault

/-- An option takes what follows, whatever it looks like. -/
example : parse ["-s", " key = a=b", "-l", "-t", "-"]
    = .ok ⟨some "-t", [("key", "a=b")], .coloured, "-"⟩ := by
  decide +kernel

end Restyle.Cli
