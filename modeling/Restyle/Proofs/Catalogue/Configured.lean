/-
Restyle.Proofs.Catalogue.Configured — which settings a lexer comes with.

A catalogue finds the language that was added last under a name
(`find?_add_all`). A lexer of it starts with the language's word lists and
is then configured, and the section that it is given is the one headed by
the name of its grammar (`newLexer_settings`). That is the section of the
language only if the language goes by that name: one that is added under a
name of its own does not get the section of its name
(`newLexer_passes_over_section`).

The catalogue compares names up to the case of ASCII letters, and sections
are looked up in full lower case. Names that the first takes for one the
second takes for one as well (`sectionOf_eq_of_eqIgnoringCase`).
-/
import Mathlib.Data.List.Induction
import Restyle.Catalogue
import Restyle.Proofs.Lexer.Settings

namespace Restyle

/-! ## 1. Names -/

namespace Ascii

/-- A character with an ASCII letter in lower case. -/
def loweredChar (c : Char) : Char := Char.ofNat (toLower c.toNat)

theorem lowered_eq (s : String) : lowered s = String.ofList (s.toList.map loweredChar) := rfl

/-- A character is not changed, or it is one of the 26 letters. -/
theorem loweredChar_cases (c : Char) :
    loweredChar c = c
      ∨ ∃ n : Fin 26, c = Char.ofNat (0x41 + n) ∧ loweredChar c = Char.ofNat (0x61 + n) := by
  by_cases h : isUpper c.toNat = true
  · right
    have hrange := h
    simp only [isUpper, Bool.and_eq_true, decide_eq_true_eq] at hrange
    refine ⟨⟨c.toNat - 0x41, by omega⟩, ?_, ?_⟩
    · show c = Char.ofNat (0x41 + (c.toNat - 0x41))
      rw [Nat.add_sub_cancel' hrange.1, Char.ofNat_toNat]
    · rw [loweredChar, toLower, if_pos h]
      congr 1
      show c.toNat + 32 = 0x61 + (c.toNat - 0x41)
      omega
  · left
    rw [loweredChar, toLower, if_neg h, Char.ofNat_toNat]

end Ascii

namespace Unicode

open Ascii (loweredChar)

/-- What is the same for both cases of every letter does not change in lower case. -/
theorem congr_loweredChar {α : Type} {f : Char → α}
    (h : ∀ n : Fin 26, f (Char.ofNat (0x41 + n)) = f (Char.ofNat (0x61 + n))) (c : Char) :
    f (loweredChar c) = f c := by
  rcases Ascii.loweredChar_cases c with hsame | ⟨n, hc, hlow⟩
  · rw [hsame]
  · rw [hlow, hc, h n]

theorem lowerChar_loweredChar (c : Char) : lowerChar (loweredChar c) = lowerChar c :=
  congr_loweredChar (f := lowerChar) (by decide) c

/-- No range of ignorable characters holds an ASCII letter. -/
theorem within_caseIgnorable_letter {n : Nat}
    (h : 0x41 ≤ n ∧ n ≤ 0x5A ∨ 0x61 ≤ n ∧ n ≤ 0x7A) : within caseIgnorable n = false := by
  have hranges : ∀ r ∈ caseIgnorable, r.2 < 0x41 ∨ 0x5A < r.1 ∧ r.2 < 0x61 ∨ 0x7A < r.1 := by
    decide +kernel
  rw [within, List.any_eq_false]
  intro r hr
  have houtside := hranges r hr
  simp only [Bool.and_eq_true, decide_eq_true_eq]
  omega

theorem startsCased_map_loweredChar (cs : List Char) :
    startsCased (cs.map loweredChar) = startsCased cs := by
  induction cs with
  | nil => rfl
  | cons c rest ih =>
    have hletter : ∀ n : Fin 26, (Char.ofNat (0x41 + n)).toNat = 0x41 + n
        ∧ (Char.ofNat (0x61 + n)).toNat = 0x61 + n := by decide
    have hignored := congr_loweredChar (f := fun c => within caseIgnorable c.toNat) (fun n => by
      rw [(hletter n).1, (hletter n).2, within_caseIgnorable_letter (by omega),
        within_caseIgnorable_letter (by omega)]) c
    have hcased := congr_loweredChar (f := fun c => within cased c.toNat) (by decide +kernel) c
    simp only [List.map_cons, startsCased, ih] at hignored hcased ⊢
    rw [hignored, hcased]

theorem lowerAfter_map_loweredChar (before cs : List Char) :
    lowerAfter (before.map loweredChar) (cs.map loweredChar) = lowerAfter before cs := by
  induction cs generalizing before with
  | nil => rfl
  | cons c rest ih =>
    have hsigma := congr_loweredChar (f := fun c => decide (c = 'Σ')) (by decide) c
    have hrest := ih (c :: before)
    rw [List.map_cons] at hrest
    simp only [decide_eq_decide] at hsigma
    simp only [List.map_cons, lowerAfter, startsCased_map_loweredChar, lowerChar_loweredChar,
      hrest, hsigma]

/-- Full lower case does not depend on the case of ASCII letters. -/
theorem toLower_lowered (s : String) : toLower (Ascii.lowered s) = toLower s := by
  rw [toLower, toLower, Ascii.lowered_eq, String.toList_ofList]
  exact congrArg String.ofList (lowerAfter_map_loweredChar [] s.toList)

end Unicode

/-- Names that differ in the case of ASCII letters only head the same section. -/
theorem Config.sectionOf_eq_of_eqIgnoringCase (c : Config) {a b : String}
    (h : Ascii.eqIgnoringCase a b = true) : c.sectionOf a = c.sectionOf b := by
  have hlow : Ascii.lowered a = Ascii.lowered b := beq_iff_eq.1 h
  rw [sectionOf, sectionOf, ← Unicode.toLower_lowered a, hlow, Unicode.toLower_lowered]

/-! ## 2. Languages by name -/

namespace Catalogue

/-- A language that is added is found by its names, and the others as before. -/
theorem find?_add (c : Catalogue) (k : Language) (name : String) :
    (c.add k).find? name
      = if Ascii.eqIgnoringCase k.name name then some k else c.find? name := by
  rw [add, find?, List.find?_append, List.find?_filter]
  simp only [Bool.decide_and, Bool.decide_eq_true]
  by_cases h : Ascii.eqIgnoringCase k.name name = true
  · -- whatever had the name before is gone
    have gone : c.languages.find? (fun a =>
        !Ascii.eqIgnoringCase a.name k.name && Ascii.eqIgnoringCase a.name name) = none := by
      rw [List.find?_eq_none]
      intro a _
      simp only [Ascii.eqIgnoringCase, beq_iff_eq] at h ⊢
      simp [h]
    rw [gone]
    simp [h]
  · have kept : (fun a : Language =>
        !Ascii.eqIgnoringCase a.name k.name && Ascii.eqIgnoringCase a.name name)
        = fun a => Ascii.eqIgnoringCase a.name name := by
      funext a
      cases ha : Ascii.eqIgnoringCase a.name name with
      | false => rw [Bool.and_false]
      | true =>
        simp only [Ascii.eqIgnoringCase, beq_iff_eq] at h ha ⊢
        simp [ha, Ne.symm h]
    rw [kept, if_neg h]
    simp [h, find?]

/-- Of the languages added under a name the last one is found. -/
theorem find?_add_all (config : Config) (languages : List Language) (name : String) :
    (languages.foldl add ⟨[], config⟩).find? name
      = languages.reverse.find? fun k => Ascii.eqIgnoringCase k.name name := by
  induction languages using List.reverseRecOn with
  | nil => rfl
  | append_singleton languages k ih =>
    rw [List.foldl_append, List.foldl_cons, List.foldl_nil, find?_add, ih, List.reverse_append,
      List.reverse_singleton, List.singleton_append, List.find?_cons]
    cases Ascii.eqIgnoringCase k.name name <;> rfl

theorem config_add_all (languages : List Language) (c : Catalogue) :
    (languages.foldl add c).config = c.config := by
  induction languages generalizing c with
  | nil => rfl
  | cons k rest ih => exact ih (c.add k)

/-! ## 3. Settings of a new lexer -/

/-- A new lexer is one of the language added last under the name. Its switches have the value
last given in the section of the lexer's name, else the value last given to all lexers, else the
default. Its word lists have the words last given in that section, else those last given by the
language, else none. The section is that of the language's name if the language is named after
its grammar. -/
theorem newLexer_settings (config : Config) (added : List Language) (name : String)
    (lexer : Lexer) (h : (added.foldl add (standard config)).newLexer name = .ok lexer) :
    ∃ k, ([Language.haskell, Language.r] ++ added).reverse.find?
        (fun k => Ascii.eqIgnoringCase k.name name) = some k
      ∧ lexer.grammar = k.grammar
      ∧ (∀ s ∈ lexer.switches,
          match (lastGiven (config.sectionOf lexer.name).properties s.name).or
            (lastGiven config.properties s.name) with
          | some value => parseSwitch value = some s.on
          | none => s ∈ (Lexer.bare k.grammar).switches)
      ∧ (∀ slot (hslot : slot < lexer.words.length),
          lexer.words[slot] = (((lastGiven (config.sectionOf lexer.name).words slot).or
            (lastGiven k.words slot)).map WordList.ofText).getD .empty)
      ∧ (Ascii.eqIgnoringCase name lexer.name = true →
          config.sectionOf lexer.name = config.sectionOf name) := by
  have hall : added.foldl add (standard config)
      = ([Language.haskell, Language.r] ++ added).foldl add ⟨[], config⟩ := by
    rw [standard, List.foldl_append]
  rw [hall, newLexer, config_add_all, find?_add_all] at h
  split at h
  · cases h
  · rename_i k hk
    split at h
    · rename_i configured hconfigured
      obtain rfl : configured = lexer := Except.ok.inj h
      have hnew := Lexer.setBy_newLexer k
      have hset := hnew.configured hconfigured
      have hname : k.newLexer.name = configured.name := by
        rw [Lexer.name, Lexer.name, hnew.grammar, hset.grammar]
      rw [hname, List.nil_append] at hset
      refine ⟨k, hk, hset.grammar, fun s hs => ?_, fun slot hslot => ?_, fun hsame => ?_⟩
      · rw [← lastGiven_append]
        exact hset.switches s hs
      · rw [← lastGiven_append]
        exact hset.words slot hslot
      · exact (config.sectionOf_eq_of_eqIgnoringCase hsame).symm
    · cases h

/-- A language under a name of its own, with sections for that name and for its grammar's: the
second one counts, before the global switches and the language's own words. -/
theorem newLexer_settings_of_own_name :
    let config : Config :=
      { properties := [("fold.compact", "off"), ("fold.at.else", "1")],
        languages := [("mine", { words := [(0, "loop")] }),
          ("r", { properties := [("fold.compact", "yes")],
                  words := [(2, "plot"), (2, "ggplot")] })] }
    let mine : Language := { name := "Mine", grammar := .r, words := [(0, "if"), (9, "x")] }
    ∃ lexer, ([mine].foldl add (standard config)).newLexer "mine" = .ok lexer
      ∧ lexer.words = [.ofText "if", .empty, .ofText "ggplot"] := by
  intro config mine
  let lexer : Lexer := .r ⟨⟨true, true⟩, .ofText "if", .empty, .ofText "ggplot"⟩
  have h : ([mine].foldl add (standard config)).newLexer "mine" = .ok lexer := by decide +kernel
  obtain ⟨k, hk, -, -, hwords, -⟩ := newLexer_settings config [mine] "mine" lexer h
  obtain rfl : mine = k := Option.some.inj ((by decide +kernel : _ = some mine).symm.trans hk)
  refine ⟨lexer, h, ?_⟩
  have h0 := hwords 0 (by decide +kernel)
  have h1 := hwords 1 (by decide +kernel)
  have h2 := hwords 2 (by decide +kernel)
  rw [show lexer.words = [lexer.words[0], lexer.words[1], lexer.words[2]] from rfl, h0, h1, h2]
  decide +kernel

/-- A language under a name of its own does not get what the section of its name says. -/
theorem newLexer_passes_over_section :
    let config : Config :=
      { languages := [("mine", { properties := [("fold.compact", "0")], words := [(0, "loop")] })] }
    let mine : Language := { name := "Mine", grammar := .r, words := [(0, "if")] }
    ∃ lexer, ([mine].foldl add (standard config)).newLexer "Mine" = .ok lexer
      ∧ ((lastGiven (config.sectionOf "Mine").properties "fold.compact").bind parseSwitch
          = some false
        ∧ (lexer.switch? "fold.compact").map (·.on) = some true)
      ∧ (lastGiven (config.sectionOf "Mine").words 0 = some "loop"
        ∧ lexer.words[0]? = some (.ofText "if")) :=
  ⟨.r ⟨{}, .ofText "if", .empty, .empty⟩, by decide +kernel⟩

end Catalogue

end Restyle
