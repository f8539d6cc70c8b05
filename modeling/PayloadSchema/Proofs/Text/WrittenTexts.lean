import Mathlib.Algebra.Group.Nat.Defs
import Mathlib.Data.List.TakeWhile
import PayloadSchema.Text.Blank
import PayloadSchema.Text.Integer
import PayloadSchema.Xml.Scope

/-!
# Texts that are written and read back

Integers are written with plain digits, names with the prefix in front, and several names with a space in
between.  What is read from such a text is what was written.
-/

namespace PayloadSchema.Text

/-! ## Integers -/

section Integers

variable {c : Char} {cs : List Char} {ds : List Nat} {n : Int} {s : String}

theorem toNat_of_isDigit (h : c.isDigit) : 0x30 ≤ c.toNat ∧ c.toNat ≤ 0x39 := by
  obtain ⟨hlow, hhigh⟩ := Bool.and_eq_true_iff.1 h
  exact ⟨UInt32.le_iff_toNat_le.1 (of_decide_eq_true hlow), UInt32.le_iff_toNat_le.1 (of_decide_eq_true hhigh)⟩

theorem digitValue?_of_isDigit (h : c.isDigit) : digitValue? c = some (c.toNat - 0x30) := by
  obtain ⟨hlow, hhigh⟩ := toNat_of_isDigit h
  have hfirst (zeros : List Nat) :
      (0x30 :: zeros).find? (fun z => z ≤ c.toNat && c.toNat < z + 10) = some 0x30 := by
    refine List.find?_cons_of_pos (Bool.and_eq_true_iff.2 ⟨decide_eq_true hlow, decide_eq_true ?_⟩)
    omega
  have hzeros : zeroDigits = 0x30 :: zeroDigits.tail := rfl
  rw [digitValue?, hzeros, hfirst, Option.map_some]

theorem not_isBlank_of_isDigit (h : c.isDigit) : isBlank c = false := by
  obtain ⟨hlow, hhigh⟩ := toNat_of_isDigit h
  simp only [isBlank, Bool.or_eq_false_iff, Bool.and_eq_false_imp, decide_eq_true_eq, decide_eq_false_iff_not,
    beq_eq_false_iff_ne]
  omega

theorem digitValue?_lt {d : Nat} (h : digitValue? c = some d) : d < 10 := by
  obtain ⟨z, hz, rfl⟩ := Option.map_eq_some_iff.1 h
  have hrange := List.find?_some hz
  simp only [Bool.and_eq_true, decide_eq_true_eq] at hrange
  omega

theorem scanDigits_digits {afterDigit : Bool} (hcs : ∀ c ∈ cs, c.isDigit) (hne : afterDigit ∨ cs ≠ []) :
    scanDigits afterDigit cs = some (cs.map (·.toNat - 0x30), []) := by
  induction cs generalizing afterDigit with
  | nil => simp_all [scanDigits]
  | cons c cs ih =>
    rw [scanDigits, digitValue?_of_isDigit (hcs c List.mem_cons_self)]
    dsimp only
    rw [ih (fun x hx => hcs x (List.mem_cons_of_mem c hx)) (.inl rfl)]
    rfl

theorem scanDigits_lt {afterDigit : Bool} {rest : List Char}
    (h : scanDigits afterDigit cs = some (ds, rest)) : ∀ d ∈ ds, d < 10 := by
  induction cs generalizing afterDigit ds with
  | nil => simp_all [scanDigits]
  | cons c cs ih =>
    rw [scanDigits] at h
    split at h
    · rename_i d hd
      obtain ⟨⟨more, _⟩, hmore, heq⟩ := Option.map_eq_some_iff.1 h
      cases heq
      exact List.forall_mem_cons.2 ⟨digitValue?_lt hd, ih hmore⟩
    · split at h
      · split at h
        · exact ih h
        · cases h
      · split at h
        · cases h
          simp
        · cases h

theorem ofDigits_lt (h : ∀ d ∈ ds, d < 10) : ofDigits ds < 10 ^ ds.length := by
  have hfold (start : Nat) : ds.foldl (fun n d => 10 * n + d) start < (start + 1) * 10 ^ ds.length := by
    induction ds generalizing start with
    | nil => simp
    | cons d ds ih =>
      obtain ⟨hd, hds⟩ := List.forall_mem_cons.1 h
      calc ds.foldl (fun n d => 10 * n + d) (10 * start + d)
          < (10 * start + d + 1) * 10 ^ ds.length := ih hds _
        _ ≤ ((start + 1) * 10) * 10 ^ ds.length := Nat.mul_le_mul_right _ (by omega)
        _ = (start + 1) * 10 ^ (ds.length + 1) := by rw [Nat.pow_succ, Nat.mul_assoc, Nat.mul_comm 10]
  simpa [ofDigits] using hfold 0

/-- What is read as an integer is not too long to be read again. -/
theorem natAbs_lt_of_readInteger (h : readInteger s = .ok n) : n.natAbs < 10 ^ maxDigits := by
  rw [readInteger] at h
  dsimp only at h
  split at h
  · cases h
  · rename_i ds rest hscan
    split at h
    · cases h
    · rename_i hlength
      split at h
      · have hlt : ofDigits ds < 10 ^ maxDigits :=
          Nat.lt_of_lt_of_le (ofDigits_lt (scanDigits_lt hscan))
          (Nat.pow_le_pow_right (by decide) (Nat.not_lt.1 hlength))
        obtain rfl := Except.ok.inj h
        split <;> simpa using hlt
      · cases h

private theorem readInteger_digits (negative : Bool) {m : Nat} (hm : m < 10 ^ maxDigits)
    (hs : s.toList.dropWhile isBlank = s.toList)
    (hsign : scanSign s.toList = (negative, Nat.toDigits 10 m)) :
    readInteger s = .ok (if negative then -(m : Int) else m) := by
  have hdigits : ∀ c ∈ Nat.toDigits 10 m, c.isDigit := fun c hc =>
    Nat.isDigit_of_mem_toDigits (by decide) (by decide) hc
  have hscan : scanDigits false (Nat.toDigits 10 m) = some ((Nat.toDigits 10 m).map (·.toNat - 0x30), []) :=
    scanDigits_digits hdigits (.inr Nat.toDigits_ne_nil)
  have hlength : (Nat.toDigits 10 m).length ≤ maxDigits :=
    (Nat.length_toDigits_le_iff (by decide) (by decide)).2 hm
  have hvalue : ofDigits ((Nat.toDigits 10 m).map (·.toNat - 0x30)) = m := by
    rw [ofDigits, List.foldl_map]
    exact Nat.ofDigitChars_ten_toDigits
  rw [readInteger, hs, hsign]
  dsimp only
  rw [hscan]
  dsimp only
  rw [List.length_map, if_neg (Nat.not_lt.2 hlength), hvalue]
  rfl

theorem readInteger_toString (h : n.natAbs < 10 ^ maxDigits) : readInteger (toString n) = .ok n := by
  have hhead (m : Nat) : ∃ c cs, Nat.toDigits 10 m = c :: cs ∧ c.isDigit := by
    obtain ⟨c, cs, hcs⟩ := List.exists_cons_of_ne_nil (Nat.toDigits_ne_nil (n := m) (b := 10))
    exact ⟨c, cs, hcs, Nat.isDigit_of_mem_toDigits (by decide) (by decide) (hcs ▸ List.mem_cons_self)⟩
  rw [Int.toString_eq_repr, Int.repr_eq_if]
  split
  · rename_i hn
    obtain ⟨c, cs, hcs, hc⟩ := hhead n.toNat
    have hread := readInteger_digits (s := n.toNat.repr) false (m := n.toNat) (by omega)
      (by rw [Nat.toList_repr, hcs, List.dropWhile_cons_of_neg (by simp [not_isBlank_of_isDigit hc])])
      (by
        rw [Nat.toList_repr, hcs, scanSign.eq_def]
        split <;> first | rfl | (rename_i heq; cases heq; cases hc))
    rw [hread, if_neg Bool.false_ne_true, Int.toNat_of_nonneg hn]
  · rename_i hn
    have hread := readInteger_digits (s := "-" ++ (-n).toNat.repr) true (m := (-n).toNat) (by omega)
      (by rw [String.toList_append]; rfl) (by rw [String.toList_append, Nat.toList_repr]; rfl)
    rw [hread]
    simp only [if_true]
    congr 1
    omega

end Integers

/-! ## Blanks -/

section Blanks

variable {p : Char → Bool} {c : Char} {cs : List Char} {s : String}

def EndsClean (cs : List Char) : Prop := ∀ c, cs.getLast? = some c → isBlank c = false

theorem endsClean_trimChars (cs : List Char) : EndsClean (trimChars cs) := by
  intro c hc
  rw [trimChars, dropTail, List.getLast?_reverse] at hc
  have hnot := List.head?_dropWhile_not isBlank (cs.dropWhile isBlank).reverse
  rw [hc] at hnot
  simpa using hnot

theorem mem_of_mem_trimChars (h : c ∈ trimChars cs) : c ∈ cs := by
  rw [trimChars, dropTail, List.mem_reverse] at h
  have hmem := (List.dropWhile_sublist isBlank).subset h
  rw [List.mem_reverse] at hmem
  exact (List.dropWhile_sublist isBlank).subset hmem

theorem mem_of_mem_trim (h : c ∈ (trim s).toList) : c ∈ s.toList := by
  rw [trim, String.toList_ofList] at h
  exact mem_of_mem_trimChars h

theorem trimChars_eq_self (hhead : ∀ c, cs.head? = some c → isBlank c = false) (hlast : EndsClean cs) :
    trimChars cs = cs := by
  have hdrop (ds : List Char) (h : ∀ c, ds.head? = some c → isBlank c = false) :
      ds.dropWhile isBlank = ds := by
    cases ds with
    | nil => rfl
    | cons d ds => rw [List.dropWhile_cons_of_neg (by simp [h d rfl])]
  rw [trimChars, dropTail, hdrop cs hhead, hdrop cs.reverse, List.reverse_reverse]
  intro c hc
  rw [List.head?_reverse] at hc
  exact hlast c hc

theorem EndsClean.of_suffix {ds : List Char} (h : EndsClean cs) (hsuffix : ds <:+ cs) : EndsClean ds := by
  intro c hc
  obtain ⟨front, rfl⟩ := hsuffix
  refine h c ?_
  rw [List.getLast?_append, hc]
  rfl

end Blanks

/-! ## Words -/

section Words

variable {c : Char} {cs word : List Char} {names : List String} {s : String}

/-- A list of characters without a blank. -/
def NoBlank (cs : List Char) : Prop := ∀ c ∈ cs, isBlank c = false

theorem NoBlank.endsClean (h : NoBlank cs) : EndsClean cs :=
  fun c hc => h c (List.mem_of_getLast? hc)

theorem wordsFrom_append (h : NoBlank cs) (rest : List Char) :
    wordsFrom word (cs ++ rest) = wordsFrom (cs.reverse ++ word) rest := by
  induction cs generalizing word with
  | nil => rfl
  | cons c cs ih =>
    obtain ⟨hc, hcs⟩ := List.forall_mem_cons.1 h
    rw [List.cons_append, wordsFrom, if_neg (by simp [hc]), ih hcs, List.reverse_cons, List.append_assoc]
    rfl

theorem mem_wordsFrom {w : List Char} (hword : NoBlank word) (h : w ∈ wordsFrom word cs) :
    NoBlank w ∧ ∀ c ∈ w, c ∈ word ∨ c ∈ cs := by
  induction cs generalizing word with
  | nil =>
    rw [wordsFrom] at h
    split at h
    · cases h
    · obtain rfl := List.mem_singleton.1 h
      exact ⟨fun c hc => hword c (List.mem_reverse.1 hc), fun c hc => .inl (List.mem_reverse.1 hc)⟩
  | cons c cs ih =>
    have hnil : NoBlank [] := by simp [NoBlank]
    have hnext (h : w ∈ wordsFrom [] cs) : NoBlank w ∧ ∀ x ∈ w, x ∈ word ∨ x ∈ c :: cs := by
      obtain ⟨hblank, hmem⟩ := ih hnil h
      refine ⟨hblank, fun x hx => .inr (List.mem_cons_of_mem c ?_)⟩
      exact (hmem x hx).resolve_left List.not_mem_nil
    rw [wordsFrom] at h
    split at h
    · split at h
      · exact hnext h
      · rcases List.mem_cons.1 h with rfl | h
        · exact ⟨fun x hx => hword x (List.mem_reverse.1 hx), fun x hx => .inl (List.mem_reverse.1 hx)⟩
        · exact hnext h
    · rename_i hc
      have hcons : NoBlank (c :: word) := List.forall_mem_cons.2 ⟨by simpa using hc, hword⟩
      obtain ⟨hblank, hmem⟩ := ih hcons h
      refine ⟨hblank, fun x hx => ?_⟩
      rcases hmem x hx with hx | hx
      · rcases List.mem_cons.1 hx with rfl | hx
        · exact .inr List.mem_cons_self
        · exact .inl hx
      · exact .inr (List.mem_cons_of_mem c hx)

theorem mem_words {w : String} (h : w ∈ words s) : NoBlank w.toList ∧ ∀ c ∈ w.toList, c ∈ s.toList := by
  obtain ⟨w, hw, rfl⟩ := List.mem_map.1 h
  obtain ⟨hblank, hmem⟩ := mem_wordsFrom (by simp [NoBlank]) hw
  rw [String.toList_ofList]
  exact ⟨hblank, fun c hc => (hmem c hc).resolve_left List.not_mem_nil⟩

theorem words_intercalate (h : ∀ name ∈ names, name ≠ "" ∧ NoBlank name.toList) :
    words (" ".intercalate names) = names := by
  have hlists : ∀ name ∈ names, wordsFrom [] name.toList = [name.toList] := by
    intro name hname
    have hrest : wordsFrom [] (name.toList ++ []) = _ := wordsFrom_append (h name hname).2 []
    rw [List.append_nil, List.append_nil] at hrest
    rw [hrest, wordsFrom, if_neg (by simpa using (h name hname).1), List.reverse_reverse]
  rw [words]
  induction names with
  | nil => rfl
  | cons name names ih =>
    obtain ⟨hname, hnames⟩ := List.forall_mem_cons.1 h
    obtain ⟨hlist, hlists⟩ := List.forall_mem_cons.1 hlists
    cases names with
    | nil => simp [hlist]
    | cons next names =>
      have hblank : isBlank ' ' := by decide
      rw [String.intercalate_cons_cons, String.toList_append, String.toList_append, List.append_assoc,
        wordsFrom_append hname.2]
      show (wordsFrom _ (' ' :: (" ".intercalate (next :: names)).toList)).map String.ofList = _
      rw [wordsFrom, if_pos hblank, if_neg (by simpa using hname.1), List.map_cons, ih hnames hlists,
        List.append_nil, List.reverse_reverse, String.ofList_toList]

end Words

end PayloadSchema.Text

namespace PayloadSchema.Xml

/-! ## Names with a prefix -/

section Names

variable {label name s : String}

theorem splitName_prefixed (h : ':' ∉ label.toList) : splitName (label ++ ":" ++ name) = (some label, name) := by
  have hcolon : ∀ c ∈ label.toList, decide (c ≠ ':') = true := fun c hc =>
    decide_eq_true fun heq => h (heq ▸ hc)
  have hlist : (label ++ ":" ++ name).toList = label.toList ++ ':' :: name.toList := by
    simp
  rw [splitName, hlist, List.dropWhile_append_of_pos hcolon, List.takeWhile_append_of_pos hcolon]
  simp

theorem splitName_plain (h : ':' ∉ s.toList) : splitName s = (none, s) := by
  have hall : s.toList.dropWhile (· ≠ ':') = [] :=
    List.dropWhile_eq_nil_iff.2 fun c hc => decide_eq_true fun heq => h (heq ▸ hc)
  rw [splitName, hall]

theorem splitName_suffix (s : String) : (splitName s).2.toList <:+ s.toList := by
  rw [splitName]
  split
  · rename_i c rest hdrop
    rw [String.toList_ofList]
    exact (List.suffix_cons c rest).trans (hdrop ▸ List.dropWhile_suffix _)
  · exact List.suffix_rfl

end Names

end PayloadSchema.Xml
