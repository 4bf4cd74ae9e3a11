/-
Restyle.Proofs.Config.Applied — what a configuration makes of a lexer, and
where it stops.

Whether a setting can be made depends on the grammar of the lexer and not
on what was set before. `Assignment.fault?` says so from names, values and
slots alone, and a setting is refused just for its fault
(`Assignment.apply_eq_error_iff`). So settings are made up to the first
one with a fault (`applyAll_cases`).

`Lexer.Overridden` says what settings without faults make of a lexer: the
last value counts for each switch and the last words for each word list,
and everything else is as it was. Every setting that is made keeps that
(`Overridden.setProperty`, `Overridden.setWords`), and only one lexer is as
it says (`Overridden.unique`). `apply_exact` is about the settings of a
configuration in their order.
-/
import Restyle.Proofs.Lexer.Settings

namespace Restyle

/-! ## 1. Faults -/

/-- What is wrong with the text of a switch: its name, or else its value. -/
def switchFault? (declared : Bool) (name value : String) : Option Error :=
  if !declared then some (.unknownProperty name)
  else if (parseSwitch value).isNone then some (.invalidValue name value)
  else none

theorem switchFault?_eq_none_iff {declared : Bool} {name value : String} :
    switchFault? declared name value = none
      ↔ declared = true ∧ (parseSwitch value).isSome = true := by
  unfold switchFault?
  cases declared <;> cases parseSwitch value <;> simp

theorem Property.assign_eq_error_iff {σ : Type} {properties : List (Property σ)} {options : σ}
    {name value : String} {e : Error} : assign properties options name value = .error e
      ↔ switchFault? (find? properties name).isSome name value = some e := by
  unfold assign switchFault?
  cases find? properties name with
  | none => simp
  | some p => cases parseSwitch value <;> simp

theorem map_eq_error_iff {α β : Type} {f : α → β} {result : Except Error α} {e : Error} :
    result.map f = .error e ↔ result = .error e := by
  cases result with
  | error e' => exact ⟨fun h => by cases h; rfl, fun h => by cases h; rfl⟩
  | ok x => exact ⟨nofun, nofun⟩

namespace Lexer

variable {l m l' : Lexer} {name value text : String} {slot : Nat} {e : Error}

/-- A switch is declared if the grammar has a property of its name. -/
theorem isSome_find?_switches {σ : Type} (properties : List (Property σ)) (options : σ) :
    ((properties.map fun p => (⟨p.name, p.description, p.get options⟩ : Switch)).find?
      (·.name == name)).isSome = (Property.find? properties name).isSome := by
  rw [List.find?_map, Option.isSome_map]
  rfl

theorem setProperty_eq_error_iff : l.setProperty name value = .error e
    ↔ switchFault? (l.switch? name).isSome name value = some e := by
  cases l with
  | haskell g first =>
    rw [setProperty, Haskell.Settings.setProperty, map_eq_error_iff, map_eq_error_iff,
      Property.assign_eq_error_iff, switch?, switches, isSome_find?_switches]
  | r g =>
    rw [setProperty, R.Settings.setProperty, map_eq_error_iff, map_eq_error_iff,
      Property.assign_eq_error_iff, switch?, switches, isSome_find?_switches]

/-- Words are refused just for a slot that is not described. -/
theorem setWords_eq_error_iff : l.setWords slot text = .error e
    ↔ l.wordListNames.length ≤ slot ∧ e = .invalidWordListSlot slot := by
  cases l with
  | haskell g first =>
    rw [setWords, map_eq_error_iff]
    match slot with
    | 0 | 1 => simp [Haskell.Settings.setWords, wordListNames, Haskell.wordListNames]
    | slot + 2 =>
      simp [Haskell.Settings.setWords, wordListNames, Haskell.wordListNames, eq_comm]
  | r g =>
    rw [setWords, map_eq_error_iff]
    match slot with
    | 0 | 1 | 2 | 3 | 4 => simp [R.Settings.setWords, wordListNames, R.wordListNames]
    | slot + 5 => simp [R.Settings.setWords, wordListNames, R.wordListNames, eq_comm]

end Lexer

namespace Config

/-- What is wrong with a setting for a lexer, if anything is. -/
def Assignment.fault? (l : Lexer) : Assignment → Option Error
  | property name value => switchFault? (l.switch? name).isSome name value
  | words slot _ =>
    if slot < l.wordListNames.length then none else some (.invalidWordListSlot slot)

variable {a : Assignment} {given before after : List Assignment} {l m l' : Lexer} {e : Error}

/-- A setting is refused for its fault. -/
theorem Assignment.apply_eq_error_iff : a.apply l = .error e ↔ a.fault? l = some e := by
  cases a with
  | property name value => exact Lexer.setProperty_eq_error_iff
  | words slot text =>
    rw [apply, Lexer.setWords_eq_error_iff, fault?]
    split
    · rename_i hslot
      simp [Nat.not_le_of_lt hslot]
    · rename_i hslot
      simp [Nat.le_of_not_lt hslot, eq_comm]

/-- Lexers of one grammar can be set alike. -/
theorem Assignment.fault?_congr (h : l'.grammar = l.grammar) : a.fault? l' = a.fault? l := by
  have hswitch (name : String) : (l'.switch? name).isSome = (l.switch? name).isSome := by
    cases l <;> cases l' <;> cases h
      <;> simp only [Lexer.switch?, Lexer.switches, Lexer.isSome_find?_switches]
  have hwords : l'.wordListNames = l.wordListNames := by
    cases l <;> cases l' <;> cases h <;> rfl
  cases a with
  | property name value => simp only [fault?, hswitch]
  | words slot text => simp only [fault?, hwords]

/-- A setting leaves the grammar. -/
theorem Assignment.grammar_apply (h : a.apply l = .ok l') : l'.grammar = l.grammar := by
  cases a with
  | property name value => exact (Lexer.words_setProperty h).1
  | words slot text => exact (Lexer.words_setWords h).1

/-- A setting without a fault is made. -/
theorem Assignment.exists_apply (h : a.fault? l = none) : ∃ l', a.apply l = .ok l' := by
  cases happly : a.apply l with
  | ok l' => exact ⟨l', rfl⟩
  | error e =>
    rw [apply_eq_error_iff, h] at happly
    cases happly

/-! ## 2. Settings in order -/

/-- Settings without faults are all made. -/
theorem exists_applyAll (h : ∀ a ∈ given, a.fault? l = none) :
    ∃ l', applyAll given l = (l', none) := by
  induction given generalizing l with
  | nil => exact ⟨l, rfl⟩
  | cons a rest ih =>
    obtain ⟨ha, hrest⟩ := List.forall_mem_cons.1 h
    obtain ⟨m, hm⟩ := Assignment.exists_apply ha
    rw [applyAll, hm]
    refine ih fun b hb => ?_
    rw [Assignment.fault?_congr (Assignment.grammar_apply hm)]
    exact hrest b hb

theorem grammar_applyAll : (applyAll given l).1.grammar = l.grammar := by
  induction given generalizing l with
  | nil => rfl
  | cons a rest ih =>
    rw [applyAll]
    split
    · rename_i m hm
      exact ih.trans (Assignment.grammar_apply hm)
    · rfl

/-- What is made first stays while more is made. -/
theorem applyAll_append (h : applyAll before l = (m, none)) :
    applyAll (before ++ after) l = applyAll after m := by
  induction before generalizing l with
  | nil =>
    obtain rfl : l = m := congrArg Prod.fst h
    rfl
  | cons a rest ih =>
    rw [applyAll] at h
    rw [List.cons_append, applyAll]
    split at h
    · exact ih h
    · cases h

/-- The first setting with a fault ends them all, with its error. -/
theorem applyAll_of_fault (hbefore : ∀ b ∈ before, b.fault? l = none) (ha : a.fault? l = some e)
    (after : List Assignment) :
    ∃ l', applyAll before l = (l', none) ∧ applyAll (before ++ a :: after) l = (l', some e) := by
  obtain ⟨l', hl'⟩ := exists_applyAll hbefore
  have hgrammar : l'.grammar = l.grammar := by
    have hkept : (applyAll before l).1.grammar = l.grammar := grammar_applyAll
    rwa [hl'] at hkept
  have herror : a.apply l' = .error e := by
    rw [Assignment.apply_eq_error_iff, Assignment.fault?_congr hgrammar]
    exact ha
  refine ⟨l', hl', ?_⟩
  rw [applyAll_append hl', applyAll, herror]

/-- Settings are made up to the first with a fault. -/
theorem applyAll_cases (given : List Assignment) (l : Lexer) :
    ((∀ a ∈ given, a.fault? l = none) ∧ ∃ l', applyAll given l = (l', none))
      ∨ ∃ before a after e l', given = before ++ a :: after ∧ (∀ b ∈ before, b.fault? l = none)
        ∧ a.fault? l = some e ∧ applyAll before l = (l', none)
        ∧ applyAll given l = (l', some e) := by
  cases hfirst : given.findSome? (Assignment.fault? l) with
  | none =>
    have hfine := List.findSome?_eq_none_iff.1 hfirst
    exact Or.inl ⟨hfine, exists_applyAll hfine⟩
  | some e =>
    obtain ⟨before, a, after, rfl, ha, hbefore⟩ := List.findSome?_eq_some_iff.1 hfirst
    obtain ⟨l', hmade, hall⟩ := applyAll_of_fault hbefore ha after
    exact Or.inr ⟨before, a, after, e, l', rfl, hbefore, ha, hmade, hall⟩

end Config

/-! ## 3. Overriding -/

namespace Lexer

/-- The first import line remembered, by lexers that remember it. -/
def firstImport : Lexer → Option Nat
  | haskell _ first => first
  | r _ => none

/-- The second lexer is the first with settings made: each switch has the value last given for its
name, each word list the words last given for its slot, and what nothing is given for is as it
was. -/
structure Overridden (l : Lexer) (values : List (String × String)) (lists : List (Nat × String))
    (l' : Lexer) : Prop where
  grammar : l'.grammar = l.grammar
  firstImport : l'.firstImport = l.firstImport
  switches : l'.switches = l.switches.map fun s =>
    { s with on := ((lastGiven values s.name).bind parseSwitch).getD s.on }
  words : l'.words = l.words.mapIdx fun slot list =>
    ((lastGiven lists slot).map WordList.ofText).getD list

variable {l m l' : Lexer} {name value text : String} {slot : Nat}
  {values : List (String × String)} {lists : List (Nat × String)}

theorem overridden_refl (l : Lexer) : l.Overridden [] [] l where
  grammar := rfl
  firstImport := rfl
  switches := (List.map_id _).symm
  words := by
    refine List.ext_getElem (by simp) fun slot _ _ => ?_
    rw [List.getElem_mapIdx]
    rfl

theorem firstImport_setProperty (h : l.setProperty name value = .ok l') :
    l'.firstImport = l.firstImport := by
  cases l <;> obtain ⟨g, -, rfl⟩ := exists_of_map_eq_ok h <;> rfl

theorem firstImport_setWords (h : l.setWords slot text = .ok l') :
    l'.firstImport = l.firstImport := by
  cases l <;> obtain ⟨g, -, rfl⟩ := exists_of_map_eq_ok h <;> rfl

theorem Overridden.setProperty (hm : l.Overridden values lists m)
    (h : m.setProperty name value = .ok l') :
    l.Overridden (values ++ [(name, value)]) lists l' := by
  obtain ⟨hgrammar, hwords⟩ := words_setProperty h
  obtain ⟨on, hon, hswitches⟩ := switches_setProperty h
  refine ⟨hgrammar.trans hm.grammar, (firstImport_setProperty h).trans hm.firstImport, ?_,
    hwords.trans hm.words⟩
  rw [hswitches, hm.switches, List.map_map]
  refine List.map_congr_left fun s _ => ?_
  rw [Function.comp_apply, lastGiven_concat]
  by_cases hname : s.name = name
  · simp [hname, hon]
  · simp [hname]

theorem Overridden.setWords (hm : l.Overridden values lists m)
    (h : m.setWords slot text = .ok l') : l.Overridden values (lists ++ [(slot, text)]) l' := by
  obtain ⟨hgrammar, hswitches, hwords⟩ := words_setWords h
  refine ⟨hgrammar.trans hm.grammar, (firstImport_setWords h).trans hm.firstImport,
    hswitches.trans hm.switches, ?_⟩
  rw [hwords, hm.words]
  refine List.ext_getElem (by simp) fun k _ _ => ?_
  rw [List.getElem_set, List.getElem_mapIdx, List.getElem_mapIdx, lastGiven_concat]
  by_cases hslot : slot = k
  · simp [hslot]
  · rw [if_neg hslot, if_neg (Ne.symm hslot)]

/-- Settings that are all made override in their order. -/
theorem Overridden.applyAll (hm : l.Overridden values lists m) {given : List Config.Assignment}
    (h : Config.applyAll given m = (l', none)) :
    l.Overridden (values ++ given.filterMap Config.Assignment.value?)
      (lists ++ given.filterMap Config.Assignment.list?) l' :=
  Config.applyAll_induction (fun hn => hn.setProperty) (fun hn => hn.setWords) hm h

/-- Only what is given for switches that are declared matters. -/
theorem Overridden.congr (h : l.Overridden values lists l') {values' : List (String × String)}
    (hsame : ∀ s ∈ l.switches, lastGiven values' s.name = lastGiven values s.name) :
    l.Overridden values' lists l' := by
  refine ⟨h.grammar, h.firstImport, ?_, h.words⟩
  rw [h.switches]
  refine List.map_congr_left fun s hs => ?_
  rw [hsame s hs]

/-- Lexers with the same settings are the same. -/
theorem ext_settings (hgrammar : m.grammar = l.grammar) (hfirst : m.firstImport = l.firstImport)
    (hswitches : m.switches = l.switches) (hwords : m.words = l.words) : m = l := by
  cases m <;> cases l <;> cases hgrammar
  case haskell.haskell.refl g first g' first' =>
    obtain rfl : first = first' := hfirst
    obtain ⟨⟨⟩, keywords, foreignWords⟩ := g
    obtain ⟨⟨⟩, keywords', foreignWords'⟩ := g'
    simp_all [switches, words, Haskell.properties]
  case r.r.refl g g' =>
    obtain ⟨⟨⟩, keywords, baseFunctions, otherFunctions⟩ := g
    obtain ⟨⟨⟩, keywords', baseFunctions', otherFunctions'⟩ := g'
    simp_all [switches, words, R.properties]

/-- Settings made in order determine the lexer. -/
theorem Overridden.unique (h : l.Overridden values lists m) (h' : l.Overridden values lists l') :
    m = l' :=
  ext_settings (h.grammar.trans h'.grammar.symm) (h.firstImport.trans h'.firstImport.symm)
    (h.switches.trans h'.switches.symm) (h.words.trans h'.words.symm)

end Lexer

/-! ## 4. Configurations -/

namespace Config

theorem assignments_fine_iff (c : Config) (l : Lexer) :
    (∀ a ∈ c.assignments l, a.fault? l = none)
      ↔ (∀ p ∈ c.properties, (l.switch? p.1).isSome = true → (parseSwitch p.2).isSome = true)
        ∧ (∀ p ∈ (c.sectionOf l.name).properties,
          (l.switch? p.1).isSome = true ∧ (parseSwitch p.2).isSome = true)
        ∧ ∀ p ∈ (c.sectionOf l.name).words, p.1 < l.wordListNames.length := by
  have hproperty (p : String × String) : (Assignment.property p.1 p.2).fault? l = none
      ↔ (l.switch? p.1).isSome = true ∧ (parseSwitch p.2).isSome = true :=
    switchFault?_eq_none_iff
  have hwords (p : Nat × String) : (Assignment.words p.1 p.2).fault? l = none
      ↔ p.1 < l.wordListNames.length := by
    simp [Assignment.fault?]
  rw [assignments_eq, LanguageConfig.assignments]
  simp only [List.forall_mem_append, List.forall_mem_map, List.mem_filter, and_imp, hproperty,
    hwords]
  exact and_congr_left' (forall₂_congr fun p _ =>
    ⟨fun h hdeclared => (h hdeclared).2, fun h hdeclared => ⟨hdeclared, h hdeclared⟩⟩)

/-- In a configuration the section of the lexer's language counts over the global switches, and
those that the lexer does not declare count for nothing. -/
theorem overridden_sections {c : Config} {l l' : Lexer}
    (h : applyAll (c.assignments l) l = (l', none)) :
    l.Overridden (c.properties ++ (c.sectionOf l.name).properties) (c.sectionOf l.name).words
      l' := by
  have hset := l.overridden_refl.applyAll h
  rw [filterMap_value?_assignments, filterMap_list?_assignments, List.nil_append,
    List.nil_append] at hset
  refine hset.congr fun s hs => ?_
  let isDeclared := fun k => (l.switch? k).isSome
  have declared : isDeclared s.name = true := Lexer.isSome_switch? rfl hs
  have hglobal := lastGiven_filter c.properties declared
  rw [lastGiven_append, lastGiven_append, hglobal]

/-- A lexer is configured without an error if every global switch that it declares has a value
that can be read, and every entry of its language's section names a declared switch with such a
value or a slot that exists. All switches and word lists then are as last given, the section
counting over the global switches, and the rest is as it was. Otherwise the error is that of the
first entry with a fault, and the lexer has the settings of the entries before it. -/
theorem apply_exact (c : Config) (l : Lexer) :
    let own := c.sectionOf l.name
    let given : List Assignment :=
      (c.properties.filter fun p => (l.switch? p.1).isSome).map (fun p => .property p.1 p.2)
        ++ (own.properties.map (fun p => .property p.1 p.2)
          ++ own.words.map fun p => .words p.1 p.2)
    ((c.apply l).2 = none
        ↔ (∀ p ∈ c.properties, (l.switch? p.1).isSome = true → (parseSwitch p.2).isSome = true)
          ∧ (∀ p ∈ own.properties,
            (l.switch? p.1).isSome = true ∧ (parseSwitch p.2).isSome = true)
          ∧ ∀ p ∈ own.words, p.1 < l.wordListNames.length)
      ∧ ((c.apply l).2 = none →
        l.Overridden (c.properties ++ own.properties) own.words (c.apply l).1)
      ∧ ∀ e, (c.apply l).2 = some e → ∃ before a after, given = before ++ a :: after
        ∧ (∀ b ∈ before, b.fault? l = none) ∧ a.fault? l = some e
        ∧ l.Overridden (before.filterMap Assignment.value?) (before.filterMap Assignment.list?)
          (c.apply l).1 := by
  intro own given
  have hgiven : c.assignments l = given := assignments_eq c l
  rw [← assignments_fine_iff, apply, hgiven]
  obtain ⟨hfine, l', hl'⟩ | ⟨before, a, after, e, l', hsplit, hbefore, ha, hl', hall⟩ :=
    applyAll_cases given l
  · rw [hl']
    refine ⟨⟨fun _ => hfine, fun _ => rfl⟩, fun _ => ?_, nofun⟩
    rw [← hgiven] at hl'
    exact overridden_sections hl'
  · rw [hall]
    refine ⟨⟨nofun, fun hfine => ?_⟩, nofun, fun e' he => ?_⟩
    · have := hfine a (by simp [hsplit])
      rw [ha] at this
      cases this
    · obtain rfl := Option.some.inj he
      have hset := l.overridden_refl.applyAll hl'
      exact ⟨before, a, after, hsplit, hbefore, ha, hset⟩

/-- A global switch that R does not declare has no value that can be read, a key and a slot are
given twice, and one slot has no list. With a slot that does not exist there is an error. -/
theorem apply_exact_of_sections :
    let l : Lexer := .r { options := ⟨false, false⟩, baseFunctions := .ofText "c" }
    let properties := [("fold", "maybe"), ("fold.compact", "off"), ("fold.at.else", "TRUE")]
    let own : LanguageConfig :=
      { properties := [("fold.compact", "0"), ("fold.compact", " yes ")],
        words := [(3, "x"), (0, "if"), (0, "for")] }
    let beyond := { own with words := own.words ++ [(5, "y"), (1, "z")] }
    apply ⟨properties, [("r", own)]⟩ l
        = (.r ⟨⟨true, true⟩, .ofText "for", .ofText "c", .empty⟩, none)
      ∧ ∃ e, (apply ⟨properties, [("r", beyond)]⟩ l).2 = some e := by
  intro l properties own beyond
  obtain ⟨hfine, hset, -⟩ := apply_exact ⟨properties, [("r", own)]⟩ l
  obtain ⟨hfine', -, -⟩ := apply_exact ⟨properties, [("r", beyond)]⟩ l
  have hnone := hfine.2 (by decide +kernel)
  refine ⟨Prod.ext ((hset hnone).unique ?_) hnone, Option.ne_none_iff_exists'.1 fun hnone' => ?_⟩
  · exact ⟨rfl, rfl, by decide +kernel, by decide +kernel⟩
  · exact absurd (hfine'.1 hnone').2.2 (by decide +kernel)

end Config

end Restyle
