import PayloadSchema.Proofs.Written.Roundtrip
import PayloadSchema.Settings.Basic

/-!
# Settings of any environment

Whatever the variables of an environment hold, settings are read of them, and a value that does not fit counts as one
that is not set.  The two limits are then at least one.  The prefix is only kept from being empty: where it is a name,
documents are read again; where it is two words, none of the texts that are written is a document.
-/

namespace PayloadSchema.Run

variable {α β : Type} {m : Run α} {next : α → Run β} {a : α} {b : β}

/-- A computation that gives a value, whatever has been reported before and whatever it reports itself. -/
def Gives (m : Run α) (a : α) : Prop := ∀ log, ∃ log', m.run.run log = (.ok a, log')

theorem gives_pure (a : α) : Gives (pure a) a := fun log => ⟨log, rfl⟩

theorem gives_warn (text : String) : Gives (warn text) () := fun log => ⟨log.push ⟨.warning, text⟩, rfl⟩

theorem Gives.bind (hm : Gives m a) (hnext : Gives (next a) b) : Gives (m >>= next) b := by
  intro log
  obtain ⟨log₁, hfirst⟩ := hm log
  obtain ⟨log₂, hsecond⟩ := hnext log₁
  exact ⟨log₂, (run_bind_of_ok hfirst).trans hsecond⟩

end PayloadSchema.Run

/-! ## Tags with two names -/

namespace PayloadSchema.Xml

variable {rule : ValueRule} {first second : List Char} {c : Char} {cs : List Char}

theorem attributeValue?_missing (hspace : isSpace c = false) (hequals : c ≠ '=') :
    attributeValue? rule (' ' :: c :: cs) = none := by
  have hdrop : (' ' :: c :: cs).dropWhile isSpace = c :: cs := by
    rw [List.dropWhile_cons, if_pos (by decide), List.dropWhile_cons, hspace]
    rfl
  rw [attributeValue?, hdrop]
  split
  · rename_i heq
    exact absurd (List.cons.inj heq).1 hequals
  · rfl

/-- A second name in a tag is read as that of an attribute, and then its value is missing. -/
theorem piece?_second_name (hfirst : rule.names.IsWritten first) (hsecond : rule.names.IsWritten second)
    (hspace : isSpace c = false) (hequals : c ≠ '=') :
    piece? rule ('<' :: (first ++ ' ' :: (second ++ ' ' :: c :: cs))) = none := by
  have hblank := rule.names.ends_delimiter ' ' (by simp)
  have hname := NameRule.qualifiedName?_append hfirst hblank (second ++ ' ' :: c :: cs)
  have hkey := NameRule.qualifiedName?_append hsecond hblank (c :: cs)
  obtain ⟨d, more, rfl, hstart, -⟩ := hfirst.cons
  obtain ⟨d', more', rfl, hstart', -⟩ := hsecond.cons
  rw [List.cons_append, List.cons_append] at hname ⊢
  rw [List.cons_append] at hkey
  rw [piece?_tag hstart, hname]
  simp only [Option.bind_eq_bind, Option.bind_some]
  rw [attributes?_cons hstart', hkey]
  simp only [Option.bind_eq_bind, Option.bind_some, attributeValue?_missing hspace hequals]
  rfl

/-- A text is no document if its first tag has a second name without a value behind its own. -/
theorem ofBytes_of_second_name {s : String} (hfirst : (⟨false⟩ : NameRule).IsWritten first)
    (hsecond : (⟨false⟩ : NameRule).IsWritten second) (hspace : isSpace c = false) (hequals : c ≠ '=')
    (hs : s.toList = '<' :: (first ++ ' ' :: (second ++ ' ' :: c :: cs))) :
    Element.ofBytes s.toUTF8.toList = .error (.problem .notWellFormed) := by
  have hpieces : pieces? ⟨⟨false⟩, false⟩ s.toList = none := by
    rw [hs, pieces?, List.length_cons, piecesWithin?, piece?_second_name hfirst hsecond hspace hequals]
    · rfl
    · exact List.cons_ne_nil _ _
  obtain ⟨d, more, rfl, hstart, -⟩ := hfirst.cons
  rw [List.cons_append] at hs
  rw [ofBytes_tag hs hstart, hpieces]
  rfl

end PayloadSchema.Xml

namespace PayloadSchema.Schema

/-- The text of a document starts with its name and with the declaration, if its prefix opens no brace. -/
theorem write_eq_cons {settings : Settings} {s : Schema} {text : String} (hlabel : Xml.IsBare settings.schemaPrefix)
    (h : s.write settings = .ok text) :
    ∃ cs, text.toList = '<' :: (settings.schemaPrefix.toList ++ (":schema xmlns:".toList ++ cs)) := by
  obtain ⟨t, htree, -⟩ := Reader.bind_eq_ok.1 (show s.toTree settings.schemaPrefix >>= _ = _ from h)
  obtain ⟨attributes, children, rfl, -⟩ := toTree_eq_tag htree
  cases (write_of_bare hlabel htree).symm.trans h
  rw [Writer.tag]
  cases children <;> simp [Xml.Tree.print, Xml.toList_printAttributes, Xml.attributeChars]

theorem ofBytes_write_twoWords {settings : Settings} {first second : String}
    (hfirst : (⟨false⟩ : Xml.NameRule).isName first.toList) (hsecond : (⟨false⟩ : Xml.NameRule).isName second.toList)
    (hlabel : settings.schemaPrefix = first ++ " " ++ second) {s : Schema} {text : String}
    (h : s.write settings = .ok text) :
    Xml.Element.ofBytes text.toUTF8.toList = .error (.problem .notWellFormed) := by
  have hbare : Xml.IsBare settings.schemaPrefix := by
    rw [hlabel, String.append_assoc]
    exact Xml.NameRule.isBare_of_isName hfirst _
  obtain ⟨cs, htext⟩ := write_eq_cons hbare h
  have hname : (⟨false⟩ : Xml.NameRule).isName "schema".toList := by decide
  have hspelled : text.toList = '<' :: (first.toList ++ ' ' :: (second.toList ++ ':' :: "schema".toList ++
      ' ' :: 'x' :: ("mlns:".toList ++ cs))) := by
    rw [htext, hlabel]
    simp
  exact Xml.ofBytes_of_second_name (.plain hfirst) (.prefixed hsecond hname) (by decide) (by decide) hspelled

end PayloadSchema.Schema

namespace PayloadSchema.Settings

open Run Text

/-! ## Values that fit -/

section Values

variable {α : Type}

/-- The number that a text stands for, unless it is below the least that is allowed. -/
def numberFrom (least : Int) (text : String) : Option Int :=
  (readInteger text).toOption.filter (least ≤ ·)

def truth? (text : String) : Option Bool :=
  if asciiLower text ∈ ["true", "1", "yes", "on"] then some true
  else if asciiLower text ∈ ["false", "0", "no", "off", ""] then some false
  else none

def word? (text : String) : Option String :=
  if text = "" then none else some text

def Environment.fitting? (env : Environment) (key : String) (read : String → Option α) : Option α :=
  (env.lookup key).bind fun raw => read (trim raw)

def fitting (env : Environment) : Settings where
  searchDepth := ((env.fitting? "SOAP_NAMESPACE_SEARCH_DEPTH" (numberFrom 1)).getD standard.searchDepth).toNat
  maxWorkItems := ((env.fitting? "SOAP_MAX_WORK_ITEMS" (numberFrom 1)).getD standard.maxWorkItems).toNat
  schemaPrefix := (env.fitting? "SOAP_SCHEMA_PREFIX" word?).getD standard.schemaPrefix
  prettyPrint := (env.fitting? "SOAP_SCHEMA_PRETTY_PRINT" truth?).getD standard.prettyPrint

theorem Environment.of_fitting? {env : Environment} {key : String} {read : String → Option α} {a : α}
    (h : env.fitting? key read = some a) : ∃ text, read text = some a := by
  obtain ⟨raw, -, hread⟩ := Option.bind_eq_some_iff.1 h
  exact ⟨trim raw, hread⟩

theorem le_of_numberFrom {least n : Int} {text : String} (h : numberFrom least text = some n) : least ≤ n := by
  rw [numberFrom, Option.filter_eq_some_iff] at h
  exact of_decide_eq_true h.2

theorem ne_empty_of_word? {text word : String} (h : word? text = some word) : word ≠ "" := by
  rw [word?] at h
  split at h
  · cases h
  · rename_i hne
    cases h
    exact hne

end Values

/-! ## Reading values -/

namespace Environment

variable (env : Environment) (key : String)

theorem text?_gives (default : Option String) :
    Gives (env.text? key default) (((env.lookup key).or default).map trim) := by
  rw [text?]
  split
  · rename_i hnone
    rw [hnone]
    exact gives_pure none
  · rename_i raw hraw
    rw [hraw, Option.map_some]
    dsimp only
    split
    · exact (gives_warn _).bind (gives_pure _)
    · exact gives_pure _

theorem integer?_gives (default : Option Int) (least : Int) :
    Gives (env.integer? key default (some least)) ((env.fitting? key (numberFrom least)).or default) := by
  refine (env.text?_gives key none).bind ?_
  rw [fitting?, Option.or_none]
  cases env.lookup key with
  | none => exact gives_pure default
  | some raw =>
    rw [Option.map_some, Option.bind_some, numberFrom]
    split
    · rename_i hnone
      cases hnone
    · rename_i hempty
      have hunread : (readInteger "").toOption = none := by decide
      rw [Option.some.inj hempty, hunread]
      exact gives_pure default
    · rename_i text _ htext
      rw [Option.some.inj htext]
      cases readInteger text with
      | error cause => exact (gives_warn _).bind (gives_pure default)
      | ok n =>
        rw [Except.toOption, Option.filter_some]
        dsimp only
        by_cases hlow : n < least
        · rw [if_pos hlow, if_neg (by simpa using hlow)]
          exact (gives_warn _).bind (gives_pure default)
        · rw [if_neg hlow, if_pos (by simpa using hlow)]
          exact gives_pure (some n)

theorem flag?_gives (default : Option Bool) :
    Gives (env.flag? key default) ((env.fitting? key truth?).or default) := by
  refine (env.text?_gives key none).bind ?_
  rw [fitting?, Option.or_none]
  cases env.lookup key with
  | none => exact gives_pure default
  | some raw =>
    rw [Option.map_some, Option.bind_some, truth?]
    dsimp only
    split
    · exact gives_pure (some true)
    · split
      · exact gives_pure (some false)
      · exact (gives_warn _).bind (gives_pure default)

end Environment

/-! ## Settings -/

/-- A standing value takes the place of a text that is empty without its blanks. -/
private theorem word_getD (set : Option String) {standing : String} (hstanding : trim standing = standing) :
    (if (set.or (some standing)).map trim = some "" then standing
      else ((set.or (some standing)).map trim).getD standing) =
        (set.bind fun raw => word? (trim raw)).getD standing := by
  cases set with
  | none =>
    rw [Option.none_or, Option.map_some, hstanding]
    exact ite_self standing
  | some raw =>
    rw [Option.some_or, Option.map_some, Option.bind_some, word?]
    by_cases hempty : trim raw = ""
    · rw [if_pos (congrArg some hempty), if_pos hempty, Option.getD_none]
    · rw [if_neg (by simpa using hempty), if_neg hempty]

/-- Settings are read of every environment, and a value that does not fit counts as not set. -/
theorem ofEnvironment_gives (env : Environment) : Gives (ofEnvironment env) (fitting env) := by
  have hor {α : Type} (o : Option α) (a d : α) : (o.or (some a)).getD d = o.getD a := by
    cases o <;> rfl
  have hstanding : trim standard.schemaPrefix = standard.schemaPrefix := by decide
  have hlabel := word_getD (env.lookup "SOAP_SCHEMA_PREFIX") hstanding
  refine (env.integer?_gives _ _ 1).bind ?_
  refine (env.integer?_gives _ _ 1).bind ?_
  refine (env.text?_gives _ _).bind ?_
  refine (env.flag?_gives _ _).bind ?_
  rw [hlabel, hor, hor, hor]
  exact gives_pure (fitting env)

example : fitting [("SOAP_MAX_WORK_ITEMS", "0"), ("SOAP_SCHEMA_PREFIX", " a b")] =
    { standard with schemaPrefix := "a b" } := by decide

theorem one_le_limits (env : Environment) : 1 ≤ (fitting env).searchDepth ∧ 1 ≤ (fitting env).maxWorkItems := by
  have hlimit (key : String) (default : Int) (hdefault : 1 ≤ default) :
      1 ≤ ((env.fitting? key (numberFrom 1)).getD default).toNat := by
    have hone : 1 ≤ (env.fitting? key (numberFrom 1)).getD default := by
      cases hfit : env.fitting? key (numberFrom 1) with
      | none => exact hdefault
      | some n =>
        obtain ⟨text, hread⟩ := Environment.of_fitting? hfit
        exact le_of_numberFrom hread
    omega
  exact ⟨hlimit _ _ (by decide), hlimit _ _ (by decide)⟩

theorem schemaPrefix_ne_empty (env : Environment) : (fitting env).schemaPrefix ≠ "" := by
  change (env.fitting? "SOAP_SCHEMA_PREFIX" word?).getD standard.schemaPrefix ≠ ""
  cases hfit : env.fitting? "SOAP_SCHEMA_PREFIX" word? with
  | none => decide
  | some word =>
    obtain ⟨text, hread⟩ := Environment.of_fitting? hfit
    exact ne_empty_of_word? hread

/-- The settings of every environment have usable limits and a prefix.  Where the prefix is a name that can be bound,
every settled schema is written as a document of which it is read again, in the namespace of schemas. -/
theorem ofEnvironment_usable (env : Environment) :
    ∃ settings, Gives (ofEnvironment env) settings ∧ 1 ≤ settings.searchDepth ∧ 1 ≤ settings.maxWorkItems ∧
      settings.schemaPrefix ≠ "" ∧
      (Xml.IsPrefix ⟨false⟩ settings.schemaPrefix → ∀ s : Schema, (s.Settled fun c => Xml.isChar c) →
        ∃ text, s.write settings = .ok text ∧ Gives (Schema.ofBytes text.toUTF8.toList) s.asRead) := by
  obtain ⟨hdepth, hitems⟩ := one_le_limits env
  refine ⟨fitting env, ofEnvironment_gives env, hdepth, hitems, schemaPrefix_ne_empty env, fun hlabel s hs => ?_⟩
  obtain ⟨text, hwrite, hreads, -⟩ := hs.reads (fitting env) hlabel
  exact ⟨text, hwrite, fun log => ⟨log, hreads log⟩⟩

/-- Two words keep their first and their last character when the blanks around them are dropped. -/
theorem trim_twoWords {first second : String} (hfirst : (⟨false⟩ : Xml.NameRule).isName first.toList)
    (hsecond : (⟨false⟩ : Xml.NameRule).isName second.toList) :
    trim (first ++ " " ++ second) = first ++ " " ++ second := by
  have hsolid {name : String} (h : (⟨false⟩ : Xml.NameRule).isName name.toList) : NoBlank name.toList := fun c hc =>
    (Xml.NameRule.solid_of_isPart (Xml.NameRule.isPart_of_isName h c hc)).2
  have hne {name : String} (h : (⟨false⟩ : Xml.NameRule).isName name.toList) : name.toList ≠ [] := by
    intro hnil
    rw [hnil] at h
    cases h
  have hlist : (first ++ " " ++ second).toList = first.toList ++ ' ' :: second.toList := by
    simp
  rw [trim, trimChars_eq_self, String.ofList_toList]
  · intro c hc
    rw [hlist, List.head?_append_of_ne_nil _ (hne hfirst)] at hc
    exact hsolid hfirst c (List.mem_of_mem_head? hc)
  · intro c hc
    rw [hlist, List.getLast?_append_cons, List.getLast?_cons_of_ne_nil (hne hsecond)] at hc
    exact hsolid hsecond c (List.mem_of_getLast? hc)

/-- Where the prefix is set to two words, the settings are read with it, and no text that is written of a schema is a
document. -/
theorem twoWords_not_usable {env : Environment} {first second : String}
    (hfirst : (⟨false⟩ : Xml.NameRule).isName first.toList) (hsecond : (⟨false⟩ : Xml.NameRule).isName second.toList)
    (henv : env.lookup "SOAP_SCHEMA_PREFIX" = some (first ++ " " ++ second)) :
    ∃ settings, Gives (ofEnvironment env) settings ∧ ∀ (s : Schema) (text : String), s.write settings = .ok text →
      Xml.Element.ofBytes text.toUTF8.toList = .error (.problem .notWellFormed) := by
  have hlabel : (fitting env).schemaPrefix = first ++ " " ++ second := by
    have hne : first ++ " " ++ second ≠ "" := by
      simp
    change ((env.lookup "SOAP_SCHEMA_PREFIX").bind fun raw => word? (trim raw)).getD standard.schemaPrefix = _
    rw [henv, Option.bind_some, trim_twoWords hfirst hsecond, word?, if_neg hne, Option.getD_some]
  exact ⟨fitting env, ofEnvironment_gives env, fun s text hwrite =>
    Schema.ofBytes_write_twoWords hfirst hsecond hlabel hwrite⟩

end PayloadSchema.Settings
