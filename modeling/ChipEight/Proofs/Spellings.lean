import ChipEight.CommandLine.Argument
import ChipEight.Proofs.Numerals
import Mathlib.Data.List.Forall2
import Mathlib.Data.List.Infix

/-!
# Spellings of a choice

A setting is chosen by its letter, if it has one, or by any beginning of its name, and its
value stands in the next word or in the same one. Whichever way it is written, its words are
taken for one option with that value, and a value below zero is not taken for an option.
-/

namespace ChipEight

/-- What one option of a command line chooses. -/
inductive Choice
  | debug
  | set (s : Setting) (value : Int)
  deriving DecidableEq

def Setting.letter? : Setting → Option String
  | .scale => some "s"
  | .cycleRate => some "r"
  | .timerDivider => none

namespace Flag

def longName : Flag → String
  | help => "help"
  | debug => "debug"
  | setting .scale => "scale"
  | setting .cycleRate => "cycle-rate"
  | setting .timerDivider => "timer-divider"

/-- A beginning of the name of an option that is not empty. -/
structure BegunBy (f : Flag) (name : String) : Prop where
  ne_nil : name.toList ≠ []
  isPrefix : name.toList <+: f.longName.toList

/-- No word is an option if it fails a test that all options pass. -/
theorem ofSpelling?_eq_none {s : String} (p : List Char → Bool)
    (hall : ∀ entry ∈ spellings, p entry.1.toList = true) (h : p s.toList = false) :
    ofSpelling? s = none := by
  rw [ofSpelling?, Option.map_eq_none_iff, List.find?_eq_none]
  intro entry hentry hs
  rw [← of_decide_eq_true hs, hall entry hentry] at h
  cases h

theorem ofSpelling?_of_isDigit {s : String} {c : Char} {rest : List Char}
    (hs : s.toList = '-' :: c :: rest) (hc : Text.isDigit c = true) : ofSpelling? s = none := by
  apply ofSpelling?_eq_none (fun cs => cs.tail.head?.all fun c => !Text.isDigit c)
  · decide
  · simp [hs, hc]

theorem ofSpelling?_of_joined {s : String} {c : Char} {rest : List Char}
    (hs : s.toList = '-' :: c :: rest) (hc : c ≠ '-') (hrest : rest ≠ []) :
    ofSpelling? s = none := by
  apply ofSpelling?_eq_none (fun cs => cs.tail.head? == some '-' || cs.length == 2)
  · decide
  · simp [hs, hc, hrest]

theorem ofSpelling?_of_equals {s : String} (hs : '=' ∈ s.toList) : ofSpelling? s = none := by
  apply ofSpelling?_eq_none (fun cs => !cs.contains '=')
  · decide
  · simp [hs]

end Flag

inductive Choice.Written : Choice → List String → Prop
  | debug {name : String} : Flag.debug.BegunBy name → Written .debug ["--" ++ name]
  | longApart {s : Setting} {name value : String} {n : Int} : (Flag.setting s).BegunBy name →
      Text.Numeral value.toList n → Written (.set s n) ["--" ++ name, value]
  | longJoined {s : Setting} {name value : String} {n : Int} : (Flag.setting s).BegunBy name →
      Text.Numeral value.toList n → Written (.set s n) ["--" ++ name ++ "=" ++ value]
  | shortApart {s : Setting} {letter value : String} {n : Int} :
      s.letter? = some letter → Text.Numeral value.toList n →
        Written (.set s n) ["-" ++ letter, value]
  | shortJoined {s : Setting} {letter value : String} {n : Int} :
      s.letter? = some letter → Text.Numeral value.toList n →
        Written (.set s n) ["-" ++ letter ++ value]

inductive Choice.Stands : Choice → List Argument → Prop
  | debug : Stands .debug [.option .debug false .none]
  | apart {s : Setting} {isShort : Bool} {value : String} {n : Int} :
      Text.Numeral value.toList n →
        Stands (.set s n) [.option (.setting s) isShort .none, .operand value]
  | equals {s : Setting} {isShort : Bool} {value : String} {n : Int} :
      Text.Numeral value.toList n →
        Stands (.set s n) [.option (.setting s) isShort (.equals value)]
  | joined {s : Setting} {isShort : Bool} {value : String} {n : Int} :
      Text.Numeral value.toList n →
        Stands (.set s n) [.option (.setting s) isShort (.joined value)]

namespace Argument

variable {s : String} {f : Flag} {name value : String}

/-! ### Words that are no options -/

theorem classify_of_plain (h : s.toList.head? ≠ some '-') : classify s = .ok (operand s) := by
  unfold classify
  split
  case h_1 hs =>
    rw [hs] at h
    contradiction
  case h_2 => rfl

theorem classify_of_dashed {c : Char} {rest : List Char} (h : s.toList = '-' :: c :: rest) :
    classify s = classifyDashed s := by
  simp only [classify, h]

theorem splitEquals_of_notMem {cs : List Char} (h : '=' ∉ cs) : splitEquals cs = (cs, none) := by
  have hdrop : cs.dropWhile (· != '=') = [] := by
    apply List.dropWhile_eq_nil_iff.mpr
    intro c hc
    exact bne_iff_ne.mpr fun heq => h (heq ▸ hc)
  rw [splitEquals, hdrop]

theorem splitEquals_append {cs : List Char} (h : '=' ∉ cs) (later : List Char) :
    splitEquals (cs ++ '=' :: later) = (cs, some later) := by
  have hpass : ∀ c ∈ cs, (c != '=') = true := fun c hc => bne_iff_ne.mpr fun heq => h (heq ▸ hc)
  simp [splitEquals, List.dropWhile_append_of_pos hpass, List.takeWhile_append_of_pos hpass]

theorem abbreviated?_of_letter {c : Char} (hc : c ≠ '-') (rest : List Char) :
    abbreviated? ('-' :: c :: rest) = .ok ((Flag.ofSpelling? (String.ofList ['-', c])).map
      fun flag => option flag true (.joined (String.ofList rest))) := by
  unfold abbreviated?
  split
  case h_1 heq =>
    cases heq
    contradiction
  case h_2 heq =>
    cases heq
    rfl
  case h_3 hnone => exact (hnone c rest rfl).elim

theorem equals_notMem_numeral {text : List Char} {n : Int} (h : Text.Numeral text n) :
    '=' ∉ text := by
  intro hmem
  rcases h.eq_or_isDigit_of_mem hmem with heq | heq | heq <;> cases heq

/-- A number below zero is no option, though it begins like one. -/
theorem classify_of_negative {text : List Char} {n : Nat} (hs : s.toList = '-' :: text)
    (h : Text.IsDecimal text n) : classify s = .ok (operand s) := by
  obtain ⟨c, rest, rfl⟩ := List.exists_cons_of_ne_nil h.ne_nil
  have hc : Text.isDigit c = true := h.digits c List.mem_cons_self
  have hequals : '=' ∉ s.toList := hs ▸ equals_notMem_numeral (.minus h)
  have hletter : Flag.ofSpelling? (String.ofList ['-', c]) = none :=
    Flag.ofSpelling?_of_isDigit String.toList_ofList hc
  have habbreviated : abbreviated? s.toList = .ok none := by
    have hdash : c ≠ '-' := by
      rintro rfl
      cases hc
    rw [hs, abbreviated?_of_letter hdash, hletter]
    rfl
  rw [classify_of_dashed hs]
  simp only [classifyDashed, Flag.ofSpelling?_of_isDigit hs hc, splitEquals_of_notMem hequals,
    habbreviated, Text.looksNegative_of_isDecimal hs h]
  rfl

theorem classify_numeral {n : Int} (h : Text.Numeral s.toList n) :
    classify s = .ok (operand s) := by
  generalize hs : s.toList = text at h
  cases h with
  | unsigned h =>
    apply classify_of_plain
    intro hfirst
    cases h.digits '-' (List.mem_of_head? (hs ▸ hfirst))
  | plus h =>
    apply classify_of_plain
    simp [hs]
  | minus h => exact classify_of_negative hs h

/-! ### Options -/

theorem classify_joined {c : Char} {rest : List Char} (hs : s.toList = '-' :: c :: rest)
    (hc : c ≠ '-') (hrest : rest ≠ []) (hequals : '=' ∉ s.toList)
    (hletter : Flag.ofSpelling? (String.ofList ['-', c]) = some f) :
    classify s = .ok (option f true (.joined (String.ofList rest))) := by
  have habbreviated : abbreviated? s.toList =
      .ok (some (option f true (.joined (String.ofList rest)))) := by
    rw [hs, abbreviated?_of_letter hc, hletter]
    rfl
  rw [classify_of_dashed hs]
  simp only [classifyDashed, Flag.ofSpelling?_of_joined hs hc hrest,
    splitEquals_of_notMem hequals, habbreviated]
  rfl

/-- The names begin with different letters, so one letter is enough. -/
theorem completions_of_begunBy (h : f.BegunBy name) :
    completions ('-' :: '-' :: name.toList) = [f] := by
  have hall : ∀ start ∈ f.longName.toList.inits, start ≠ [] →
      completions ('-' :: '-' :: start) = [f] := by
    cases f with
    | setting s => cases s <;> decide
    | _ => decide
  exact hall _ ((List.mem_inits _ _).mpr h.isPrefix) h.ne_nil

theorem equals_notMem_of_begunBy (h : f.BegunBy name) : '=' ∉ name.toList := by
  have hlong : '=' ∉ f.longName.toList := by
    cases f with
    | setting s => cases s <;> decide
    | _ => decide
  exact fun hmem => hlong (h.isPrefix.subset hmem)

theorem mem_completions {g : Flag} (h : Flag.ofSpelling? s = some g) :
    g ∈ completions s.toList := by
  obtain ⟨entry, hfound, rfl⟩ := Option.map_eq_some_iff.mp h
  have hspelled : entry.1 = s := by simpa using List.find?_some hfound
  apply List.mem_map_of_mem
  apply List.mem_filter.mpr
  refine ⟨List.mem_of_find?_eq_some hfound, ?_⟩
  rw [hspelled]
  exact List.isPrefixOf_iff_prefix.mpr List.prefix_rfl

/-- A beginning of a name is the name of no other option. -/
theorem ofSpelling?_of_begunBy (h : f.BegunBy name) (hs : s.toList = '-' :: '-' :: name.toList) :
    Flag.ofSpelling? s = none ∨ Flag.ofSpelling? s = some f := by
  cases hexact : Flag.ofSpelling? s with
  | none => exact .inl rfl
  | some g =>
    have hg := mem_completions hexact
    rw [hs, completions_of_begunBy h, List.mem_singleton] at hg
    exact .inr (congrArg some hg)

theorem isShortSpelling_of_begunBy (h : f.BegunBy name) :
    isShortSpelling ('-' :: '-' :: name.toList) = false := by
  have hpos := List.length_pos_iff.mpr h.ne_nil
  simp only [isShortSpelling, List.length_cons]
  exact decide_eq_false (by omega)

theorem classify_name (h : f.BegunBy name) :
    classify ("--" ++ name) = .ok (option f false .none) := by
  have hs : ("--" ++ name).toList = '-' :: '-' :: name.toList := String.toList_append
  have hequals : '=' ∉ '-' :: '-' :: name.toList := by
    simp [equals_notMem_of_begunBy h]
  have habbreviated : abbreviated? ('-' :: '-' :: name.toList) =
      .ok (some (option f false .none)) := by
    simp only [abbreviated?, splitEquals_of_notMem hequals, completions_of_begunBy h]
    rfl
  rw [classify_of_dashed hs]
  rcases ofSpelling?_of_begunBy h hs with hexact | hexact
  · simp only [classifyDashed, hs, hexact, splitEquals_of_notMem hequals, habbreviated]
    rfl
  · simp only [classifyDashed, hs, hexact, isShortSpelling_of_begunBy h]

theorem classify_name_equals (h : f.BegunBy name) (value : String) :
    classify ("--" ++ name ++ "=" ++ value) = .ok (option f false (.equals value)) := by
  have hstart : '=' ∉ '-' :: '-' :: name.toList := by
    simp [equals_notMem_of_begunBy h]
  have hs : ("--" ++ name ++ "=" ++ value).toList =
      '-' :: '-' :: name.toList ++ '=' :: value.toList := by
    simp
  have hsplit := splitEquals_append hstart value.toList
  have hwhole : Flag.ofSpelling? ("--" ++ name ++ "=" ++ value) = none :=
    Flag.ofSpelling?_of_equals (by simp [hs])
  have habbreviated : abbreviated? ('-' :: '-' :: name.toList ++ '=' :: value.toList) =
      .ok (some (option f false (.equals value))) := by
    rw [List.cons_append, List.cons_append] at hsplit ⊢
    simp only [abbreviated?, hsplit, completions_of_begunBy h, attachment, String.ofList_toList]
  rw [classify_of_dashed hs]
  rcases ofSpelling?_of_begunBy h String.toList_ofList with hexact | hexact
  · simp only [classifyDashed, hwhole, hs, hsplit, hexact, habbreviated]
    rfl
  · simp only [classifyDashed, hwhole, hs, hsplit, hexact, isShortSpelling_of_begunBy h,
      String.ofList_toList]

theorem classify_letter {setting : Setting} {letter : String} (h : setting.letter? = some letter) :
    classify ("-" ++ letter) = .ok (option (.setting setting) true .none) := by
  cases setting with
  | scale | cycleRate =>
    cases h
    decide
  | timerDivider => cases h

theorem classify_letter_joined {setting : Setting} {letter : String} {n : Int}
    (h : setting.letter? = some letter) (hvalue : Text.Numeral value.toList n) :
    classify ("-" ++ letter ++ value) = .ok (option (.setting setting) true (.joined value)) := by
  obtain ⟨c, hletter, hc, hequals, hflag⟩ : ∃ c, letter.toList = [c] ∧ c ≠ '-' ∧ c ≠ '=' ∧
      Flag.ofSpelling? (String.ofList ['-', c]) = some (.setting setting) := by
    cases setting with
    | scale =>
      cases h
      exact ⟨'s', by decide⟩
    | cycleRate =>
      cases h
      exact ⟨'r', by decide⟩
    | timerDivider => cases h
  have hs : ("-" ++ letter ++ value).toList = '-' :: c :: value.toList := by
    simp [hletter]
  have hnone : '=' ∉ ("-" ++ letter ++ value).toList := by
    simp [hs, hequals.symm, equals_notMem_numeral hvalue]
  rw [classify_joined hs hc hvalue.ne_nil hnone hflag, String.ofList_toList]

/-! ### All words -/

/-- By itself the separator would be short for any of the names. -/
theorem ne_separator_of_classify {a : Argument} (h : classify s = .ok a) : s ≠ "--" := by
  rintro rfl
  have hambiguous : classify "--" = .error (.ambiguous "--") := by decide
  cases hambiguous.symm.trans h

/-- Words are taken each for itself, as none of them is the separator. -/
theorem classifyAll_of_forall₂ {words : List String} {arguments : List Argument}
    (h : List.Forall₂ (fun s a => classify s = .ok a) words arguments) :
    classifyAll words = .ok arguments := by
  induction h with
  | nil => rfl
  | cons hword _ ih =>
    rw [classifyAll, if_neg (ne_separator_of_classify hword), hword, ih]
    rfl

end Argument

/-- However a choice is written, its words stand for it. -/
theorem Choice.Written.exists_stands {c : Choice} {words : List String} (h : c.Written words) :
    ∃ arguments, List.Forall₂ (fun s a => Argument.classify s = .ok a) words arguments ∧
      c.Stands arguments := by
  cases h with
  | debug hname => exact ⟨_, .cons (Argument.classify_name hname) .nil, .debug⟩
  | longApart hname hvalue =>
    exact ⟨_, .cons (Argument.classify_name hname) (.cons (Argument.classify_numeral hvalue) .nil),
      .apart hvalue⟩
  | longJoined hname hvalue =>
    exact ⟨_, .cons (Argument.classify_name_equals hname _) .nil, .equals hvalue⟩
  | shortApart hletter hvalue =>
    exact ⟨_, .cons (Argument.classify_letter hletter)
      (.cons (Argument.classify_numeral hvalue) .nil), .apart hvalue⟩
  | shortJoined hletter hvalue =>
    exact ⟨_, .cons (Argument.classify_letter_joined hletter hvalue) .nil, .joined hvalue⟩

end ChipEight
