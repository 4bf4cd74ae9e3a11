/-
Restyle.Proofs.Lexer.Settings — what settings make of a lexer.

One setting changes one switch (`switches_setProperty`) or one word list
(`words_setWords`) and nothing else. After many of them each switch and each
word list is as the last setting left it that was about it: `SetBy` says so
of a lexer and the settings made so far, and every setting keeps it, those
of a language's definition and those of a configuration alike
(`setBy_newLexer`, `SetBy.applyAll`).
-/
import Restyle.Config
import Restyle.Language

namespace Restyle

/-! ## 1. Last settings -/

/-- What was last given for a key. -/
def lastGiven {α β : Type} [BEq α] (settings : List (α × β)) (key : α) : Option β :=
  settings.reverse.lookup key

section LastGiven

variable {α β : Type} [BEq α]

theorem lastGiven_append (before after : List (α × β)) (key : α) :
    lastGiven (before ++ after) key = (lastGiven after key).or (lastGiven before key) := by
  rw [lastGiven, List.reverse_append, List.lookup_append]
  rfl

variable [LawfulBEq α]

theorem lastGiven_concat (settings : List (α × β)) (k key : α) (value : β) [Decidable (k = key)] :
    lastGiven (settings ++ [(key, value)]) k
      = if k = key then some value else lastGiven settings k := by
  split
  · rename_i h
    simp [lastGiven, h]
  · rename_i h
    have hne : (k == key) = false := beq_false_of_ne h
    simp [lastGiven, List.lookup_cons, hne]

theorem lookup_filter (settings : List (α × β)) {keep : α → Bool} {key : α}
    (h : keep key = true) :
    (settings.filter fun p => keep p.1).lookup key = settings.lookup key := by
  induction settings with
  | nil => rfl
  | cons p rest ih =>
    obtain ⟨k, value⟩ := p
    by_cases hk : key = k
    · subst hk
      simp [h]
    · have hne : (key == k) = false := beq_false_of_ne hk
      rw [List.filter_cons, List.lookup_cons, hne]
      split
      · rw [List.lookup_cons, hne]
        exact ih
      · exact ih

/-- What is left out, other keys being the reason, makes no difference to a key. -/
theorem lastGiven_filter (settings : List (α × β)) {keep : α → Bool} {key : α}
    (h : keep key = true) :
    lastGiven (settings.filter fun p => keep p.1) key = lastGiven settings key := by
  rw [lastGiven, ← List.filter_reverse, lookup_filter _ h]
  rfl

end LastGiven

/-! ## 2. Switches -/

namespace Property

variable {σ : Type} {properties : List (Property σ)}

/-- Setting a switch sets the switches of its name and no others. -/
def Separate (properties : List (Property σ)) : Prop :=
  ∀ p ∈ properties, ∀ q ∈ properties, ∀ on options,
    q.get (p.set on options) = if q.name = p.name then on else q.get options

theorem get_assign (hsep : Separate properties) {options options' : σ} {name value : String}
    (h : assign properties options name value = .ok options') :
    ∃ on, parseSwitch value = some on
      ∧ ∀ q ∈ properties, q.get options' = if q.name = name then on else q.get options := by
  unfold assign at h
  split at h
  · cases h
  · rename_i p hp
    split at h
    · cases h
    · rename_i on hon
      obtain rfl : p.set on options = options' := Except.ok.inj h
      have hname : p.name = name := by simpa using List.find?_some hp
      refine ⟨on, hon, fun q hq => ?_⟩
      rw [hsep p (List.mem_of_find?_eq_some hp) q hq, hname]

end Property

theorem Haskell.separate_properties : Property.Separate Haskell.properties := by
  simp [Property.Separate, Haskell.properties]

theorem R.separate_properties : Property.Separate R.properties := by
  simp [Property.Separate, R.properties]

/-- What a step that succeeds was made from. -/
theorem exists_of_map_eq_ok {σ τ : Type} {f : σ → τ} {result : Except Error σ} {y : τ}
    (h : result.map f = .ok y) : ∃ x, result = .ok x ∧ f x = y := by
  cases result with
  | error e => cases h
  | ok x => exact ⟨x, rfl, Except.ok.inj h⟩

namespace Lexer

/-- The word lists in slot order. -/
def words : Lexer → List WordList
  | haskell g _ => [g.keywords, g.foreignWords]
  | r g => [g.keywords, g.baseFunctions, g.otherFunctions]

variable {l l' : Lexer}

/-- A switch that is set takes the value of the text, and all others keep theirs. -/
theorem switches_setProperty {name value : String} (h : l.setProperty name value = .ok l') :
    ∃ on, parseSwitch value = some on
      ∧ l'.switches = l.switches.map fun s => if s.name = name then { s with on } else s := by
  have rebuilt {σ : Type} {properties : List (Property σ)} {options options' : σ} {on : Bool}
      (hget : ∀ q ∈ properties,
        q.get options' = if q.name = name then on else q.get options) :
      properties.map (fun q => (⟨q.name, q.description, q.get options'⟩ : Switch))
        = (properties.map fun q => (⟨q.name, q.description, q.get options⟩ : Switch)).map
            fun s => if s.name = name then { s with on } else s := by
    rw [List.map_map]
    refine List.map_congr_left fun q hq => ?_
    rw [hget q hq, Function.comp_apply]
    split <;> rfl
  cases l with
  | haskell g first =>
    obtain ⟨g', hg, rfl⟩ := exists_of_map_eq_ok h
    obtain ⟨options, hassign, rfl⟩ := exists_of_map_eq_ok hg
    obtain ⟨on, hon, hget⟩ := Property.get_assign Haskell.separate_properties hassign
    exact ⟨on, hon, rebuilt hget⟩
  | r g =>
    obtain ⟨g', hg, rfl⟩ := exists_of_map_eq_ok h
    obtain ⟨options, hassign, rfl⟩ := exists_of_map_eq_ok hg
    obtain ⟨on, hon, hget⟩ := Property.get_assign R.separate_properties hassign
    exact ⟨on, hon, rebuilt hget⟩

/-- Setting a switch leaves the word lists. -/
theorem words_setProperty {name value : String} (h : l.setProperty name value = .ok l') :
    l'.grammar = l.grammar ∧ l'.words = l.words := by
  cases l with
  | haskell g first =>
    obtain ⟨g', hg, rfl⟩ := exists_of_map_eq_ok h
    obtain ⟨options, -, rfl⟩ := exists_of_map_eq_ok hg
    exact ⟨rfl, rfl⟩
  | r g =>
    obtain ⟨g', hg, rfl⟩ := exists_of_map_eq_ok h
    obtain ⟨options, -, rfl⟩ := exists_of_map_eq_ok hg
    exact ⟨rfl, rfl⟩

/-- Words go to the list of their slot if there is one, and nothing else changes. -/
theorem words_setWords {slot : Nat} {text : String} (h : l.setWords slot text = .ok l') :
    l'.grammar = l.grammar ∧ l'.switches = l.switches
      ∧ l'.words = l.words.set slot (.ofText text) := by
  cases l with
  | haskell g first =>
    obtain ⟨g', hg, rfl⟩ := exists_of_map_eq_ok h
    match slot, hg with
    | 0, hg => obtain rfl := Except.ok.inj hg; exact ⟨rfl, rfl, rfl⟩
    | 1, hg => obtain rfl := Except.ok.inj hg; exact ⟨rfl, rfl, rfl⟩
  | r g =>
    obtain ⟨g', hg, rfl⟩ := exists_of_map_eq_ok h
    match slot, hg with
    | 0, hg => obtain rfl := Except.ok.inj hg; exact ⟨rfl, rfl, rfl⟩
    | 1, hg => obtain rfl := Except.ok.inj hg; exact ⟨rfl, rfl, rfl⟩
    | 2, hg => obtain rfl := Except.ok.inj hg; exact ⟨rfl, rfl, rfl⟩
    | 3, hg => obtain rfl := Except.ok.inj hg; exact ⟨rfl, rfl, rfl⟩
    | 4, hg => obtain rfl := Except.ok.inj hg; exact ⟨rfl, rfl, rfl⟩

/-- Words are refused only for a slot that has no list. -/
theorem length_words_le_of_setWords {slot : Nat} {text : String} {e : Error}
    (h : l.setWords slot text = .error e) : l.words.length ≤ slot := by
  cases l with
  | haskell g first =>
    match slot with
    | 0 => cases h
    | 1 => cases h
    | slot + 2 => exact Nat.le_add_left 2 slot
  | r g =>
    match slot with
    | 0 => cases h
    | 1 => cases h
    | 2 => cases h
    | slot + 3 => exact Nat.le_add_left 3 slot

/-! ## 3. Many settings -/

/-- The lexer is one of the grammar `g` after the settings given: each switch has the value
last given for it, each word list the words last given for its slot, and what nothing was given
for is as it is at first. -/
structure SetBy (g : Grammar) (values : List (String × String)) (lists : List (Nat × String))
    (l : Lexer) : Prop where
  grammar : l.grammar = g
  switches : ∀ s ∈ l.switches, match lastGiven values s.name with
    | some value => parseSwitch value = some s.on
    | none => s ∈ (bare g).switches
  words : ∀ slot (h : slot < l.words.length),
    l.words[slot] = ((lastGiven lists slot).map WordList.ofText).getD .empty

variable {g : Grammar} {values : List (String × String)} {lists : List (Nat × String)}

theorem setBy_bare (g : Grammar) : SetBy g [] [] (bare g) where
  grammar := by cases g <;> rfl
  switches _ h := h
  words slot h := by
    have hempty : ∀ list ∈ (bare g).words, list = .empty := by
      cases g <;> simp [bare, Lexer.words]
    exact hempty _ (List.getElem_mem h)

theorem SetBy.setProperty (hl : SetBy g values lists l) {name value : String}
    (h : l.setProperty name value = .ok l') :
    SetBy g (values ++ [(name, value)]) lists l' := by
  obtain ⟨hgrammar, hwords⟩ := words_setProperty h
  obtain ⟨on, hon, hswitches⟩ := switches_setProperty h
  refine ⟨hgrammar.trans hl.grammar, ?_, ?_⟩
  · intro s hs
    rw [hswitches] at hs
    obtain ⟨old, hold, rfl⟩ := List.mem_map.1 hs
    rw [lastGiven_concat]
    by_cases hname : old.name = name
    · simpa [hname] using hon
    · simpa [hname] using hl.switches old hold
  · rw [hwords]
    exact hl.words

/-- Words for a slot without a list count for nothing, so it does not matter whether they are
refused. -/
theorem SetBy.set_words (hl : SetBy g values lists l) {slot : Nat} {text : String}
    (hgrammar : l'.grammar = l.grammar) (hswitches : l'.switches = l.switches)
    (hwords : l'.words = l.words.set slot (.ofText text)) :
    SetBy g values (lists ++ [(slot, text)]) l' := by
  refine ⟨hgrammar.trans hl.grammar, by rw [hswitches]; exact hl.switches, ?_⟩
  simp only [hwords]
  intro k hk
  rw [List.getElem_set, lastGiven_concat]
  by_cases hslot : slot = k
  · simp [hslot]
  · rw [if_neg hslot, if_neg (Ne.symm hslot)]
    exact hl.words k (by simpa using hk)

theorem SetBy.setWords (hl : SetBy g values lists l) {slot : Nat} {text : String}
    (h : l.setWords slot text = .ok l') : SetBy g values (lists ++ [(slot, text)]) l' := by
  obtain ⟨hgrammar, hswitches, hwords⟩ := words_setWords h
  exact hl.set_words hgrammar hswitches hwords

/-- A language's own words that are refused count for nothing. -/
theorem SetBy.loadWords (hl : SetBy g values lists l) (entry : Nat × String) :
    SetBy g values (lists ++ [entry]) (Language.loadWords l entry) := by
  unfold Language.loadWords
  split
  · rename_i l' h
    exact hl.setWords h
  · rename_i e h
    exact hl.set_words rfl rfl (List.set_eq_of_length_le (length_words_le_of_setWords h)).symm

/-- A new lexer of a language has the language's word lists. -/
theorem setBy_newLexer (k : Language) : SetBy k.grammar [] k.words k.newLexer := by
  have load (lists : List (Nat × String)) (entries : List (Nat × String)) (l : Lexer)
      (hl : SetBy k.grammar [] lists l) :
      SetBy k.grammar [] (lists ++ entries) (entries.foldl Language.loadWords l) := by
    induction entries generalizing lists l with
    | nil => simpa using hl
    | cons entry rest ih =>
      have := ih (lists ++ [entry]) _ (hl.loadWords entry)
      rwa [List.append_assoc] at this
  exact load [] k.words _ (setBy_bare k.grammar)

end Lexer

/-! ## 4. Configurations -/

namespace Config

/-- The switch that a setting is about, with its value. -/
def Assignment.value? : Assignment → Option (String × String)
  | property name value => some (name, value)
  | words .. => none

/-- The word list that a setting is about, with its words. -/
def Assignment.list? : Assignment → Option (Nat × String)
  | property .. => none
  | words slot text => some (slot, text)

/-- The section of a name, which is compared in lower case, or an empty one. -/
def sectionOf (c : Config) (name : String) : LanguageConfig :=
  (c.languages.lookup (Unicode.toLower name)).getD {}

theorem assignments_eq (c : Config) (l : Lexer) :
    c.assignments l
      = (c.properties.filter fun p => (l.switch? p.1).isSome).map (fun p => .property p.1 p.2)
        ++ LanguageConfig.assignments (c.sectionOf l.name) := by
  rw [assignments, sectionOf]
  cases c.languages.lookup (Unicode.toLower l.name) <;> rfl

theorem filterMap_value?_assignments (c : Config) (l : Lexer) :
    (c.assignments l).filterMap Assignment.value?
      = (c.properties.filter fun p => (l.switch? p.1).isSome) ++ (c.sectionOf l.name).properties := by
  simp [assignments_eq, LanguageConfig.assignments, List.filterMap_map, Function.comp_def,
    Assignment.value?]

theorem filterMap_list?_assignments (c : Config) (l : Lexer) :
    (c.assignments l).filterMap Assignment.list? = (c.sectionOf l.name).words := by
  have none (values : List (String × String)) :
      (values.map fun p => Assignment.property p.1 p.2).filterMap Assignment.list? = [] := by
    simp [Assignment.list?]
  rw [assignments_eq, LanguageConfig.assignments, List.filterMap_append, List.filterMap_append,
    none, none, List.filterMap_map]
  exact List.filterMap_some

/-- What each setting keeps, with what it gives, is kept by settings that all succeed. -/
theorem applyAll_induction
    {motive : List (String × String) → List (Nat × String) → Lexer → Prop}
    (property : ∀ {values lists l name value l'}, motive values lists l →
      l.setProperty name value = .ok l' → motive (values ++ [(name, value)]) lists l')
    (words : ∀ {values lists l slot text l'}, motive values lists l →
      l.setWords slot text = .ok l' → motive values (lists ++ [(slot, text)]) l')
    {values : List (String × String)} {lists : List (Nat × String)} {l l' : Lexer}
    (hl : motive values lists l) {given : List Assignment} (h : applyAll given l = (l', none)) :
    motive (values ++ given.filterMap Assignment.value?)
      (lists ++ given.filterMap Assignment.list?) l' := by
  induction given generalizing l values lists with
  | nil =>
    obtain rfl : l = l' := congrArg Prod.fst h
    simpa using hl
  | cons a rest ih =>
    rw [applyAll] at h
    split at h
    · rename_i m hm
      cases a with
      | property name value =>
        simpa [List.filterMap_cons, Assignment.value?, Assignment.list?] using ih (property hl hm) h
      | words slot text =>
        simpa [List.filterMap_cons, Assignment.value?, Assignment.list?] using ih (words hl hm) h
    · cases h

end Config

namespace Lexer

variable {l l' : Lexer} {g : Grammar} {values : List (String × String)}
  {lists : List (Nat × String)}

/-- Settings that all succeed are settings made. -/
theorem SetBy.applyAll (hl : SetBy g values lists l) {given : List Config.Assignment}
    (h : Config.applyAll given l = (l', none)) :
    SetBy g (values ++ given.filterMap Config.Assignment.value?)
      (lists ++ given.filterMap Config.Assignment.list?) l' :=
  Config.applyAll_induction (fun hm => hm.setProperty) (fun hm => hm.setWords) hl h

/-- Lexers of one grammar have the same switches, if not as they are set. -/
theorem isSome_switch? (hgrammar : l'.grammar = l.grammar) {s : Switch} (hs : s ∈ l'.switches) :
    (l.switch? s.name).isSome = true := by
  have names : l'.switches.map (·.name) = l.switches.map (·.name) := by
    cases l <;> cases l' <;> cases hgrammar <;> rfl
  obtain ⟨own, hown, hname⟩ := List.mem_map.1 (names ▸ List.mem_map_of_mem hs)
  rw [switch?, List.find?_isSome]
  exact ⟨own, hown, by simpa using hname⟩

/-- A configuration gives a lexer its global switches and then what the section of the lexer's
own name has. -/
theorem SetBy.configured (hl : SetBy g values lists l) {c : Config}
    (h : c.apply l = (l', none)) :
    SetBy g (values ++ c.properties ++ (c.sectionOf l.name).properties)
      (lists ++ (c.sectionOf l.name).words) l' := by
  have hset := hl.applyAll h
  rw [Config.filterMap_value?_assignments, Config.filterMap_list?_assignments] at hset
  refine ⟨hset.grammar, fun s hs => ?_, hset.words⟩
  have := hset.switches s hs
  rw [← List.append_assoc, lastGiven_append, lastGiven_append] at this
  rw [lastGiven_append, lastGiven_append]
  let isDeclared := fun k => (l.switch? k).isSome
  have declared : isDeclared s.name = true :=
    isSome_switch? (hset.grammar.trans hl.grammar.symm) hs
  rwa [lastGiven_filter _ declared] at this

end Lexer

end Restyle
