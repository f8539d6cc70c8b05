import PayloadSchema.Proofs.Written.Tags
import PayloadSchema.Proofs.Xml.Decoding

/-!
# Printed tags are read

What is printed of a name, of an attribute value or of a tag is read as that again, whatever follows.  So the text of a
tree is cut into the pieces that the tree consists of.
-/

namespace PayloadSchema.Xml

/-! ## Names -/

section Names

variable {rule : NameRule} {name first second rest : List Char} {c : Char}

/-- A character that ends every name. -/
def NameRule.Ends (rule : NameRule) (c : Char) : Prop :=
  rule.isPart c = false ∧ c ≠ ':'

theorem NameRule.ends_delimiter : ∀ c ∈ ['=', ' ', '>'], rule.Ends c := by
  simp only [List.forall_mem_cons]
  exact ⟨⟨rfl, by decide⟩, ⟨rfl, by decide⟩, ⟨rfl, by decide⟩, by simp⟩

inductive NameRule.IsWritten (rule : NameRule) : List Char → Prop where
  | plain {name : List Char} (h : rule.isName name) : IsWritten rule name
  | prefixed {first second : List Char} (hfirst : rule.isName first) (hsecond : rule.isName second) :
      IsWritten rule (first ++ ':' :: second)

theorem NameRule.isPart_of_isStart (h : rule.isStart c) : rule.isPart c := by
  rw [isStart] at h
  rw [isPart]
  split
  · rename_i hlt
    rw [if_pos hlt] at h
    simp only [Bool.or_eq_true] at h
    rcases h with h | h
    · simp [Char.isAlphanum, h]
    · simp [h]
  · rename_i hlt
    rw [if_neg hlt] at h
    simp [isStart, if_neg hlt, h]

theorem NameRule.name?_append (hname : rule.isName name) (hc : rule.isPart c = false) :
    rule.name? (name ++ c :: rest) = some (name, c :: rest) := by
  cases name with
  | nil => cases hname
  | cons d name =>
    simp only [isName, Bool.and_eq_true] at hname
    obtain ⟨hstart, hparts⟩ := hname
    have hall := List.all_eq_true.1 hparts
    rw [List.cons_append, name?, if_pos hstart, List.takeWhile_append_of_pos hall, List.dropWhile_append_of_pos hall,
      List.takeWhile_cons, List.dropWhile_cons, hc]
    simp

theorem NameRule.qualifiedName?_append (hname : rule.IsWritten name) (hc : rule.Ends c) (rest : List Char) :
    rule.qualifiedName? (name ++ c :: rest) = some (name, c :: rest) := by
  cases hname with
  | plain hname =>
    rw [qualifiedName?, name?_append hname hc.1]
    simp only [Option.bind_eq_bind, Option.bind_some]
    split
    · rename_i heq
      exact absurd (List.cons.inj heq).1 hc.2
    · rfl
  | @prefixed first second hfirst hsecond =>
    have hcolon : rule.isPart ':' = false := rfl
    rw [List.append_assoc, List.cons_append, qualifiedName?, name?_append hfirst hcolon]
    show (rule.name? (second ++ c :: rest)).bind _ = _
    rw [name?_append hsecond hc.1]
    rfl

/-- A written name starts as names do and goes on with characters of names and colons. -/
theorem NameRule.IsWritten.cons (hname : rule.IsWritten name) :
    ∃ d more, name = d :: more ∧ rule.isStart d ∧ ∀ x ∈ more, (rule.isPart x || x == ':') = true := by
  have hplain {name : List Char} (h : rule.isName name) :
      ∃ d more, name = d :: more ∧ rule.isStart d ∧ ∀ x ∈ more, rule.isPart x := by
    cases name with
    | nil => cases h
    | cons d more =>
      simp only [isName, Bool.and_eq_true, List.all_eq_true] at h
      exact ⟨d, more, rfl, h⟩
  cases hname with
  | plain hname =>
    obtain ⟨d, more, rfl, hstart, hmore⟩ := hplain hname
    exact ⟨d, more, rfl, hstart, fun x hx => by simp [hmore x hx]⟩
  | prefixed hfirst hsecond =>
    obtain ⟨d, more, rfl, hstart, hmore⟩ := hplain hfirst
    obtain ⟨d', more', rfl, hstart', hmore'⟩ := hplain hsecond
    refine ⟨d, more ++ ':' :: d' :: more', rfl, hstart, fun x hx => ?_⟩
    simp only [List.mem_append, List.mem_cons] at hx
    rcases hx with hx | rfl | rfl | hx
    · simp [hmore x hx]
    · simp
    · simp [isPart_of_isStart hstart']
    · simp [hmore' x hx]

theorem endTag?_append (hname : rule.IsWritten name) (rest : List Char) :
    endTag? rule (name ++ '>' :: rest) = some (name, rest) := by
  obtain ⟨d, more, rfl, hstart, hmore⟩ := hname.cons
  have hend : (rule.isPart '>' || '>' == ':') = false := rfl
  have htake : (more ++ '>' :: rest).takeWhile (fun c => rule.isPart c || c == ':') = more := by
    rw [List.takeWhile_append_of_pos hmore, List.takeWhile_cons, hend]
    simp
  have hdrop : ((more ++ '>' :: rest).dropWhile (fun c => rule.isPart c || c == ':')).dropWhile isSpace =
      '>' :: rest := by
    rw [List.dropWhile_append_of_pos hmore, List.dropWhile_cons, hend]
    rfl
  simp only [List.cons_append, endTag?, hstart, if_true, htake, hdrop]

end Names

/-! ## Values -/

section Values

variable {rule : ValueRule} {value body rest : List Char} {c d : Char}

theorem ValueRule.value?_pending (hbody : ';' ∉ body) (met : List Char) :
    rule.value? (some met) (body ++ ';' :: rest) =
      (rule.expand? (met.reverse ++ body)).bind fun added => (rule.value? none rest).map (added ++ ·) := by
  induction body generalizing met with
  | nil =>
    rw [List.nil_append, value?, if_pos rfl, List.append_nil]
    cases rule.expand? met.reverse <;> rfl
  | cons c body ih =>
    rw [List.mem_cons, not_or] at hbody
    rw [List.cons_append, value?, if_neg (Ne.symm hbody.1), ih hbody.2]
    simp

theorem ValueRule.value?_reference (hbody : ';' ∉ body) (hexpand : rule.expand? body = some [d]) :
    rule.value? none ('&' :: (body ++ ';' :: rest)) = (rule.value? none rest).map (d :: ·) := by
  rw [value?, if_pos rfl, value?_pending hbody, List.reverse_nil, List.nil_append, hexpand]
  · rfl
  · rintro _ ⟨⟩

theorem eq_of_isSpace (h : isSpace c) : c = ' ' ∨ c = '\t' ∨ c = '\n' ∨ c = '\r' := by
  simp only [isSpace, Bool.or_eq_true, beq_iff_eq] at h
  rcases h with ((h | h) | h) | h
  · exact .inl (Char.toNat_inj.1 h)
  · exact .inr (.inl (Char.toNat_inj.1 h))
  · exact .inr (.inr (.inl (Char.toNat_inj.1 h)))
  · exact .inr (.inr (.inr (Char.toNat_inj.1 h)))

theorem allowsPrintable_isChar : AllowsPrintable fun c => isChar c := by
  intro c hlow hhigh
  simp only [isChar, Bool.or_eq_true, Bool.and_eq_true, decide_eq_true_eq, bne_iff_ne]
  omega

theorem ValueRule.value?_escapedChar (hc : isChar c) :
    rule.value? none (escapedChar c ++ rest) = (rule.value? none rest).map (c :: ·) := by
  have hreference (body : List Char) (d : Char) (hbody : ';' ∉ body) (hexpand : rule.expand? body = some [d]) :
      rule.value? none ('&' :: (body ++ ';' :: rest)) = (rule.value? none rest).map (d :: ·) :=
    ValueRule.value?_reference hbody hexpand
  unfold escapedChar
  split
  · exact hreference ['a', 'm', 'p'] '&' (by decide) rfl
  · exact hreference ['l', 't'] '<' (by decide) rfl
  · exact hreference ['g', 't'] '>' (by decide) rfl
  · exact hreference ['q', 'u', 'o', 't'] '\x22' (by decide) rfl
  · exact hreference ['#', '1', '3'] '\r' (by decide) rfl
  · exact hreference ['#', '1', '0'] '\n' (by decide) rfl
  · exact hreference ['#', '0', '9'] '\t' (by decide) rfl
  · rename_i hamp hlt hgt hquot hreturn hfeed htab
    have hnone : rule.value? none (c :: rest) = if c = '&' then rule.value? (some []) rest
        else if isSpace c then (rule.value? none rest).map (' ' :: ·)
        else if c = '<' || !isChar c then none else (rule.value? none rest).map (c :: ·) := by
      rw [value?]
      rintro _ rfl
      exact absurd rfl hreturn
    rw [List.singleton_append, hnone, if_neg hamp]
    by_cases hspace : isSpace c
    · obtain rfl : c = ' ' := by
        rcases eq_of_isSpace hspace with h | h | h | h
        · exact h
        · exact absurd h htab
        · exact absurd h hfeed
        · exact absurd h hreturn
      rfl
    · rw [if_neg hspace, if_neg]
      simpa [hc] using hlt

theorem ValueRule.value?_escaped (hvalue : ∀ c ∈ value, isChar c) :
    rule.value? none (value.flatMap escapedChar) = some value := by
  induction value with
  | nil =>
    rw [List.flatMap_nil, value?]
  | cons c value ih =>
    obtain ⟨hc, hvalue⟩ := List.forall_mem_cons.1 hvalue
    rw [List.flatMap_cons, value?_escapedChar hc, ih hvalue]
    rfl

theorem ne_quote_of_escapedChar : ∀ d ∈ escapedChar c, d ≠ '\x22' := by
  unfold escapedChar
  split
  on_goal 8 =>
    rename_i hquot _ _ _
    simpa using hquot
  all_goals simp

theorem attributeValue?_escaped (hvalue : ∀ c ∈ value, isChar c) :
    attributeValue? rule ('=' :: '\x22' :: (value.flatMap escapedChar ++ '\x22' :: rest)) = some (value, rest) := by
  have hquote : ∀ d ∈ value.flatMap escapedChar, decide (d ≠ '\x22') = true := by
    intro d hd
    obtain ⟨c, -, hd⟩ := List.mem_flatMap.1 hd
    exact decide_eq_true (ne_quote_of_escapedChar d hd)
  have htake : (value.flatMap escapedChar ++ '\x22' :: rest).takeWhile (· ≠ '\x22') = value.flatMap escapedChar := by
    rw [List.takeWhile_append_of_pos hquote]
    simp
  have hdrop : (value.flatMap escapedChar ++ '\x22' :: rest).dropWhile (· ≠ '\x22') = '\x22' :: rest := by
    rw [List.dropWhile_append_of_pos hquote]
    simp
  have hequals : ('=' :: '\x22' :: (value.flatMap escapedChar ++ '\x22' :: rest)).dropWhile isSpace =
      '=' :: '\x22' :: (value.flatMap escapedChar ++ '\x22' :: rest) := rfl
  have hstart : ('\x22' :: (value.flatMap escapedChar ++ '\x22' :: rest)).dropWhile isSpace =
      '\x22' :: (value.flatMap escapedChar ++ '\x22' :: rest) := rfl
  simp only [attributeValue?, hequals, hstart, true_or, if_true, hdrop, htake, ValueRule.value?_escaped hvalue,
    Option.map_some]

end Values

/-! ## Tags -/

section Attributes

variable {rule : ValueRule} {attributes : List (String × String)} {a : String × String} {rest : List Char} {c : Char}

def attributeChars (a : String × String) : List Char :=
  ' ' :: (a.1.toList ++ '=' :: '\x22' :: (a.2.toList.flatMap escapedChar ++ ['\x22']))

def spelled (attributes : List (String × String)) : List (List Char × List Char) :=
  attributes.map fun a => (a.1.toList, a.2.toList)

theorem toList_printAttributes : (printAttributes attributes).toList = attributes.flatMap attributeChars := by
  rw [printAttributes]
  induction attributes with
  | nil => rfl
  | cons a attributes ih =>
    rw [List.map_cons, List.flatMap_cons, ← ih]
    simp [String.join_cons, attributeChars, escaped]

theorem length_le_attributeChars (attributes : List (String × String)) :
    attributes.length ≤ (attributes.flatMap attributeChars).length := by
  induction attributes with
  | nil => exact Nat.le_refl 0
  | cons a attributes ih =>
    rw [List.flatMap_cons, List.length_append, List.length_cons, attributeChars, List.length_cons]
    omega

structure IsPrintable (rule : NameRule) (a : String × String) : Prop where
  name : rule.IsWritten a.1.toList
  value : ∀ c ∈ a.2.toList, isChar c

inductive Closes (rest : List Char) : Bool → List Char → Prop where
  | empty : Closes rest true (' ' :: '/' :: '>' :: rest)
  | full : Closes rest false ('>' :: rest)

theorem attributes?_cons {fuel : Nat} {cs : List Char} (hc : rule.names.isStart c) :
    attributes? rule (fuel + 1) (' ' :: c :: cs) = (do
      let (name, rest) ← rule.names.qualifiedName? (c :: cs)
      let (value, rest) ← attributeValue? rule rest
      let (more, closed, rest) ← attributes? rule fuel rest
      some ((name, value) :: more, closed, rest)) := by
  have hsolid : isSpace c = false := by
    by_contra hspace
    rcases eq_of_isSpace (by simpa using hspace) with rfl | rfl | rfl | rfl <;> cases hc
  have hdrop : (' ' :: c :: cs).dropWhile isSpace = c :: cs := by
    rw [List.dropWhile_cons, if_pos (by decide), List.dropWhile_cons, hsolid]
    rfl
  have hclose : c ≠ '>' := rule.names.ne_of_isStart hc rfl
  have hslash : c ≠ '/' := rule.names.ne_of_isStart hc rfl
  rw [attributes?, hdrop]
  split
  · rename_i heq
    exact absurd (List.cons.inj heq).1 hclose
  · rename_i heq
    exact absurd (List.cons.inj heq).1 hslash
  · rfl

theorem attributes?_printed {fuel : Nat} {closed : Bool} {tail : List Char}
    (hattributes : ∀ a ∈ attributes, IsPrintable rule.names a) (htail : Closes rest closed tail)
    (hfuel : attributes.length < fuel) :
    attributes? rule fuel (attributes.flatMap attributeChars ++ tail) = some (spelled attributes, closed, rest) := by
  induction attributes generalizing fuel with
  | nil =>
    obtain ⟨fuel, rfl⟩ := Nat.exists_eq_succ_of_ne_zero (Nat.ne_of_gt hfuel)
    cases htail <;> rfl
  | cons a attributes ih =>
    obtain ⟨fuel, rfl⟩ := Nat.exists_eq_succ_of_ne_zero (Nat.ne_of_gt (Nat.zero_lt_of_lt hfuel))
    obtain ⟨ha, hattributes⟩ := List.forall_mem_cons.1 hattributes
    have hmore : attributes? rule fuel (attributes.flatMap attributeChars ++ tail) =
        some (spelled attributes, closed, rest) := ih hattributes (by simpa using hfuel)
    obtain ⟨d, more, hname, hstart, -⟩ := ha.name.cons
    have hend := rule.names.ends_delimiter '=' (by simp)
    have hlist : (a :: attributes).flatMap attributeChars ++ tail = ' ' :: (a.1.toList ++
        '=' :: '\x22' :: (a.2.toList.flatMap escapedChar ++ '\x22' :: (attributes.flatMap attributeChars ++ tail))) := by
      simp [attributeChars]
    rw [hlist]
    have hqualified := NameRule.qualifiedName?_append ha.name hend ('\x22' :: (a.2.toList.flatMap escapedChar ++
      '\x22' :: (attributes.flatMap attributeChars ++ tail)))
    rw [hname, List.cons_append] at hqualified ⊢
    rw [attributes?_cons hstart, hqualified]
    simp only [Option.bind_eq_bind, Option.bind_some, attributeValue?_escaped ha.value, hmore]
    simp [spelled, hname]

end Attributes

section Pieces

variable {rule : ValueRule} {name : List Char} {attributes : List (String × String)} {tail rest data : List Char}
  {closed : Bool} {c : Char} {cs : List Char}

theorem piece?_tag (hc : rule.names.isStart c) :
    piece? rule ('<' :: c :: cs) = (do
      let (name, rest) ← rule.names.qualifiedName? (c :: cs)
      let (attributes, closed, rest) ← attributes? rule (rest.length + 1) rest
      some (some (.start name attributes closed), rest)) := by
  have hbang : c ≠ '!' := rule.names.ne_of_isStart hc rfl
  have hmark : c ≠ '?' := rule.names.ne_of_isStart hc rfl
  have hslash : c ≠ '/' := rule.names.ne_of_isStart hc rfl
  unfold piece?
  split <;> simp_all

theorem piece?_start (hname : rule.names.IsWritten name) (hattributes : ∀ a ∈ attributes, IsPrintable rule.names a)
    (htail : Closes rest closed tail) :
    piece? rule ('<' :: (name ++ (attributes.flatMap attributeChars ++ tail))) =
      some (some (.start name (spelled attributes) closed), rest) := by
  obtain ⟨d, more, hd, hstart, -⟩ := hname.cons
  -- what follows the name is a space or the mark that closes the tag
  obtain ⟨c, cs, hcs, hc⟩ : ∃ c cs, attributes.flatMap attributeChars ++ tail = c :: cs ∧ rule.names.Ends c := by
    cases attributes with
    | nil =>
      cases htail with
      | empty => exact ⟨' ', _, rfl, NameRule.ends_delimiter _ (by simp)⟩
      | full => exact ⟨'>', _, rfl, NameRule.ends_delimiter _ (by simp)⟩
    | cons a attributes => exact ⟨' ', _, rfl, NameRule.ends_delimiter _ (by simp)⟩
  have hfuel : attributes.length < (attributes.flatMap attributeChars ++ tail).length + 1 := by
    have hle := length_le_attributeChars attributes
    rw [List.length_append]
    omega
  have hread := attributes?_printed hattributes htail hfuel
  have hqualified := NameRule.qualifiedName?_append hname hc cs
  rw [hcs] at hread ⊢
  rw [hd, List.cons_append] at hqualified ⊢
  rw [piece?_tag hstart, hqualified]
  simp only [Option.bind_eq_bind, Option.bind_some, hread]

theorem piece?_stop (hname : rule.names.IsWritten name) :
    piece? rule ('<' :: '/' :: (name ++ '>' :: rest)) = some (some (.stop name), rest) := by
  have hread := endTag?_append hname rest
  show (endTag? rule.names (name ++ '>' :: rest)).map _ = _
  rw [hread]
  rfl

private theorem plain_blank (hdata : ∀ c ∈ data, c = '\n' ∨ c = ' ') :
    isPlain data ∧ lineFeeds data = data ∧ ∀ c ∈ data, (c != '<' && c != '&') = true := by
  induction data with
  | nil => exact ⟨rfl, rfl, by simp⟩
  | cons c data ih =>
    obtain ⟨hc, hdata⟩ := List.forall_mem_cons.1 hdata
    obtain ⟨hplain, hfeeds, hall⟩ := ih hdata
    refine ⟨?_, ?_, List.forall_mem_cons.2 ⟨?_, hall⟩⟩
    · rcases hc with rfl | rfl <;> simp [isPlain, hplain, isChar]
    · rcases hc with rfl | rfl <;> simp [lineFeeds, hfeeds]
    · rcases hc with rfl | rfl <;> rfl

theorem piece?_blank (hc : c = '\n' ∨ c = ' ') (hdata : ∀ c ∈ data, c = '\n' ∨ c = ' ') :
    piece? rule (c :: data ++ '<' :: rest) = some (some (.plain (c :: data)), '<' :: rest) := by
  obtain ⟨hplain, hfeeds, hall⟩ := plain_blank (List.forall_mem_cons.2 ⟨hc, hdata⟩)
  have htake : (c :: data ++ '<' :: rest).takeWhile (fun c => c != '<' && c != '&') = c :: data := by
    rw [List.takeWhile_append_of_pos hall]
    simp
  have hdrop : (c :: data ++ '<' :: rest).dropWhile (fun c => c != '<' && c != '&') = '<' :: rest := by
    rw [List.dropWhile_append_of_pos hall]
    simp
  unfold piece?
  split
  on_goal 7 => simp only [htake, hdrop, hplain, hfeeds, if_true]
  all_goals rcases hc with rfl | rfl <;> simp_all

end Pieces

/-! ## Trees -/

section Trees

inductive Tree.IsPrintable (rule : NameRule) : Tree → Prop where
  | intro {name : String} {attributes : List (String × String)} {words : String} {children : List Tree}
      (hname : rule.IsWritten name.toList) (hattributes : ∀ a ∈ attributes, Xml.IsPrintable rule a)
      (hchildren : ∀ t ∈ children, IsPrintable rule t) : IsPrintable rule (.mk name attributes words children)

def blankPieces (indent : Option Nat) : List Markup :=
  if indent.isSome then [.plain (lineStart indent).toList] else []

mutual

def Tree.pieces (indent : Option Nat) : Tree → List Markup
  | .mk name attributes _ [] => [.start name.toList (spelled attributes) true]
  | .mk name attributes _ (child :: children) =>
    .start name.toList (spelled attributes) false ::
      (Tree.piecesAll (indent.map (· + 1)) (child :: children) ++ (blankPieces indent ++ [.stop name.toList]))

def Tree.piecesAll (indent : Option Nat) : List Tree → List Markup
  | [] => []
  | t :: ts => blankPieces indent ++ (t.pieces indent ++ Tree.piecesAll indent ts)

end

/-- Characters that are cut into pieces, with any fuel that is enough. -/
def Cuts (rule : ValueRule) (cs : List Char) (pieces : List Markup) : Prop :=
  ∀ fuel, cs.length ≤ fuel → piecesWithin? rule fuel cs = some pieces

variable {rule : ValueRule} {cs rest : List Char} {pieces more : List Markup} {piece : Option Markup} {t : Tree}
  {ts : List Tree} {indent : Option Nat}

theorem cuts_nil : Cuts rule [] [] := fun fuel _ => by
  cases fuel <;> rfl

theorem Cuts.cons (h : Cuts rule rest more) (hpiece : piece? rule cs = some (piece, rest))
    (hlt : rest.length < cs.length) : Cuts rule cs (piece.toList ++ more) := by
  intro fuel hfuel
  obtain ⟨fuel, rfl⟩ := Nat.exists_eq_succ_of_ne_zero (Nat.ne_of_gt ((Nat.zero_lt_of_lt hlt).trans_le hfuel))
  cases cs with
  | nil => cases hlt
  | cons c cs =>
    rw [piecesWithin?, hpiece]
    · show (piecesWithin? rule fuel rest).bind _ = _
      rw [h fuel (by omega)]
      rfl
    · rintro ⟨⟩

theorem Cuts.blank (h : Cuts rule ('<' :: rest) more) (indent : Option Nat) :
    Cuts rule ((lineStart indent).toList ++ '<' :: rest) (blankPieces indent ++ more) := by
  cases indent with
  | none => exact h
  | some level =>
    have hline : (lineStart (some level)).toList = '\n' :: List.replicate (2 * level) ' ' := by
      simp [lineStart]
    have hpiece : piece? rule ((lineStart (some level)).toList ++ '<' :: rest) =
        some (some (.plain (lineStart (some level)).toList), '<' :: rest) := by
      rw [hline]
      refine piece?_blank (.inl rfl) fun c hc => ?_
      exact .inr (List.eq_of_mem_replicate hc)
    have hlt : ('<' :: rest).length < ((lineStart (some level)).toList ++ '<' :: rest).length := by
      rw [hline]
      simp only [List.length_append, List.length_cons]
      omega
    exact h.cons hpiece hlt

theorem print_eq_cons (indent : Option Nat) (t : Tree) : ∃ cs, (t.print indent).toList = '<' :: cs := by
  obtain ⟨name, attributes, words, children⟩ := t
  cases children <;> rw [Tree.print] <;> simp [String.toList_append]

theorem Tree.IsPrintable.print_eq_cons {rule : NameRule} (ht : t.IsPrintable rule) (indent : Option Nat) :
    ∃ c cs, (t.print indent).toList = '<' :: c :: cs ∧ rule.isStart c := by
  cases ht with
  | @intro name attributes words children hname _ _ =>
    obtain ⟨c, more, hc, hstart, -⟩ := hname.cons
    cases children <;> rw [Tree.print] <;> simp [String.toList_append, hc, hstart]

theorem cuts_printAll (indent : Option Nat) (hts : ∀ t ∈ ts, ∀ {rest more}, Cuts rule rest more →
      Cuts rule ((t.print indent).toList ++ rest) (t.pieces indent ++ more)) (h : Cuts rule rest more) :
    Cuts rule ((Tree.printAll indent ts).toList ++ rest) (Tree.piecesAll indent ts ++ more) := by
  induction ts with
  | nil =>
    rw [Tree.printAll, Tree.piecesAll]
    exact h
  | cons t ts ih =>
    obtain ⟨ht, hts⟩ := List.forall_mem_cons.1 hts
    obtain ⟨cs, hcs⟩ := print_eq_cons indent t
    have hfirst := ht (ih hts)
    rw [Tree.printAll, Tree.piecesAll]
    simp only [String.toList_append, List.append_assoc]
    rw [hcs, List.cons_append] at hfirst ⊢
    exact hfirst.blank indent

theorem Tree.IsPrintable.cuts (ht : t.IsPrintable rule.names) (h : Cuts rule rest more) :
    Cuts rule ((t.print indent).toList ++ rest) (t.pieces indent ++ more) := by
  induction ht generalizing indent rest more with
  | @intro name attributes words children hname hattributes _ ih =>
    cases children with
    | nil =>
      have hlist : (Tree.print indent (.mk name attributes words [])).toList ++ rest =
          '<' :: (name.toList ++ (attributes.flatMap attributeChars ++ ' ' :: '/' :: '>' :: rest)) := by
        rw [Tree.print]
        simp [toList_printAttributes]
      rw [hlist, Tree.pieces]
      exact h.cons (piece?_start hname hattributes .empty) (by simp; omega)
    | cons child children =>
      have hstop : Cuts rule ('<' :: '/' :: (name.toList ++ '>' :: rest)) (.stop name.toList :: more) :=
        h.cons (piece?_stop hname) (by simp; omega)
      have hinner := cuts_printAll (indent.map (· + 1)) (fun t ht _ _ h => ih t ht h)
        (hstop.blank indent)
      have hlist : (Tree.print indent (.mk name attributes words (child :: children))).toList ++ rest =
          '<' :: (name.toList ++ (attributes.flatMap attributeChars ++ '>' ::
            ((Tree.printAll (indent.map (· + 1)) (child :: children)).toList ++
              ((lineStart indent).toList ++ '<' :: '/' :: (name.toList ++ '>' :: rest))))) := by
        rw [Tree.print]
        simp [toList_printAttributes]
      rw [hlist, Tree.pieces]
      have hall := hinner.cons (piece?_start hname hattributes .full) (by simp; omega)
      simpa using hall

end Trees

end PayloadSchema.Xml
