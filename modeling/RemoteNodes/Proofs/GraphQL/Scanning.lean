import Mathlib.Data.List.TakeWhile
import Mathlib.Tactic
import RemoteNodes.GraphQL.Printer
import RemoteNodes.GraphQL.Token
/-!
Written pieces and the tokens that they are scanned as. A piece may stand at any depth of
indentation, which puts blanks after its line breaks, also inside block strings; so the values of
strings are left aside.

* `Token.blur`: a token without the value of a string.
* `Token.shift`: a text further in.
* `Token.Scans`: a piece that is scanned as some tokens, wherever it stands, provided that what
  comes after it ends its last token; `Scans.append`: pieces one after the other.
* `Token.scansFree_separators`, `Token.scansFree_mark`, `Token.scansFree_ellipsis`: blanks and
  marks.
* `Token.scanFrom_word`, `Token.scansWhole_name`: **names**.
-/

namespace RemoteNodes

namespace Token

/-- A token without the value of a string. -/
def blur : Token → Token
  | string _ _ => string "" false
  | token => token

/-! ### Indentation -/

/-- A text `depth` levels further in: blanks stand after its line breaks. -/
def shift (depth : Nat) (cs : List Char) : List Char :=
  cs.flatMap fun c => if c = '\n' then '\n' :: List.replicate (2 * depth) ' ' else [c]

lemma shift_cons (depth : Nat) (c : Char) (cs : List Char) : shift depth (c :: cs)
    = (if c = '\n' then '\n' :: List.replicate (2 * depth) ' ' else [c]) ++ shift depth cs := rfl

lemma shift_append (depth : Nat) (cs ds : List Char) :
    shift depth (cs ++ ds) = shift depth cs ++ shift depth ds := List.flatMap_append

/-- A text on one line stays as it is. -/
lemma shift_of_not_mem {cs : List Char} (h : '\n' ∉ cs) (depth : Nat) : shift depth cs = cs := by
  induction cs with
  | nil => rfl
  | cons c cs ih =>
      rw [List.mem_cons, not_or] at h
      rw [shift_cons, if_neg (Ne.symm h.1), ih h.2]
      rfl

lemma shift_shift (depth : Nat) (cs : List Char) :
    shift depth (shift 1 cs) = shift (depth + 1) cs := by
  induction cs with
  | nil => rfl
  | cons c cs ih =>
      rw [shift_cons, shift_append, ih, shift_cons]
      split
      · have hblanks : '\n' ∉ List.replicate (2 * 1) ' ' := by decide
        rw [shift_cons, if_pos rfl, shift_of_not_mem hblanks, List.cons_append,
          ← List.replicate_add, Nat.mul_add]
      · rename_i hc
        rw [shift_cons, if_neg hc]
        rfl

@[simp] lemma shift_zero (cs : List Char) : shift 0 cs = cs := by
  induction cs with
  | nil => rfl
  | cons c cs ih =>
      rw [shift_cons, ih]
      split
      · rename_i hc
        rw [hc]
        rfl
      · rfl

lemma head?_shift (depth : Nat) (cs : List Char) : (shift depth cs).head? = cs.head? := by
  cases cs with
  | nil => rfl
  | cons c cs =>
      rw [shift_cons]
      split
      · rename_i hc
        rw [hc]
        rfl
      · rfl

/-! ### Pieces -/

/-- A character that ends names, numbers and strings that stand before it. -/
def isStop (c : Char) : Bool := " \n,:()]\x7d".toList.contains c

/-- Nothing that stands before these characters goes on in them. -/
def Stops (rest : List Char) : Prop := ∀ c, rest.head? = some c → isStop c = true

/-- A piece is scanned as some tokens, up to the values of strings, before anything that keeps a
condition. -/
def Scans (follow : List Char → Prop) (cs : List Char) (expected : List Token) : Prop :=
  ∀ (depth fuel : Nat) (found : List Token) (rest : List Char) (tokens : List Token), follow rest →
    scanFrom fuel found (shift depth cs ++ rest) = some tokens →
      ∃ (fuel' : Nat) (ts : List Token), ts.map blur = expected
        ∧ scanFrom fuel' (ts.reverse ++ found) rest = some tokens

/-- A piece that is scanned so before anything that may come. -/
abbrev ScansFree (cs : List Char) (expected : List Token) : Prop :=
  Scans (fun _ => True) cs expected

/-- A piece that is scanned so before what ends its last token. -/
abbrev ScansWhole (cs : List Char) (expected : List Token) : Prop := Scans Stops cs expected

variable {follow follow' : List Char → Prop} {cs ds : List Char} {us vs : List Token} {c : Char}

lemma Scans.mono (h : Scans follow cs us) (hfollow : ∀ rest, follow' rest → follow rest) :
    Scans follow' cs us :=
  fun depth fuel found rest tokens hrest => h depth fuel found rest tokens (hfollow rest hrest)

lemma scans_nil : Scans follow [] [] := fun _ fuel _ _ _ _ h => ⟨fuel, [], rfl, h⟩

/-- A piece before another one that it may stand before. -/
lemma Scans.append (hcs : Scans follow cs us) (hds : Scans follow' ds vs)
    (hfollow : ∀ depth rest, follow' rest → follow (shift depth ds ++ rest)) :
    Scans follow' (cs ++ ds) (us ++ vs) := by
  intro depth fuel found rest tokens hrest h
  rw [shift_append, List.append_assoc] at h
  obtain ⟨fuel, ts, rfl, h⟩ := hcs depth fuel found _ tokens (hfollow depth rest hrest) h
  obtain ⟨fuel, ts', rfl, h⟩ := hds depth fuel _ rest tokens hrest h
  exact ⟨fuel, ts ++ ts', List.map_append, by rwa [List.reverse_append, List.append_assoc]⟩

lemma ScansFree.append (hcs : ScansFree cs us) (hds : Scans follow ds vs) :
    Scans follow (cs ++ ds) (us ++ vs) :=
  Scans.append hcs hds fun _ _ _ => trivial

lemma stops_shift_append (hds : ds ≠ []) (hstop : ∀ c, ds.head? = some c → isStop c = true)
    (depth : Nat) (rest : List Char) : Stops (shift depth ds ++ rest) := by
  intro c hc
  obtain ⟨d, ds, rfl⟩ := List.exists_cons_of_ne_nil hds
  rw [List.head?_append, head?_shift] at hc
  exact hstop c (by simpa using hc)

/-- A piece before one that begins with a character that ends tokens. -/
lemma ScansWhole.append (hcs : ScansWhole cs us) (hds : Scans follow (c :: ds) vs)
    (hc : isStop c = true) : Scans follow (cs ++ c :: ds) (us ++ vs) := by
  refine Scans.append hcs hds fun depth rest _ => stops_shift_append (by simp) ?_ depth rest
  rintro d ⟨⟩
  exact hc

/-- A piece that stands further in. -/
lemma Scans.shift (h : Scans follow cs us) : Scans follow (shift 1 cs) us := by
  intro depth fuel found rest tokens hrest hscan
  rw [shift_shift] at hscan
  exact h (depth + 1) fuel found rest tokens hrest hscan

/-- The tokens of a text are those of the piece that it is. -/
lemma ScansWhole.of_scan? {text : String} {tokens : List Token} (h : ScansWhole text.toList us)
    (hscan : scan? text = some tokens) : tokens.map blur = us := by
  obtain ⟨fuel, ts, hts, hrest⟩ := h 0 (text.toList.length + 1) [] [] tokens nofun
    (by rw [shift_zero, List.append_nil]; exact hscan)
  cases fuel with
  | zero => cases hrest
  | succ fuel =>
      rw [scanFrom, List.append_nil, List.reverse_reverse] at hrest
      cases hrest
      exact hts

/-! ### Blanks and marks -/

/-- Characters that separate tokens. -/
def isSeparator (c : Char) : Bool := c = ' ' || c = ',' || c = '\n'

lemma scanFrom_separator {fuel : Nat} {found tokens : List Token} (hc : isSeparator c = true)
    (h : scanFrom fuel found (c :: cs) = some tokens) :
    ∃ fuel', scanFrom fuel' found cs = some tokens := by
  cases fuel with
  | zero => cases h
  | succ fuel =>
      have hblank : (c = ' ' || c = '\t' || c = ',' || c = '\uFEFF' || c = '\n' || c = '\r')
          = true := by
        simp only [isSeparator, Bool.or_eq_true, decide_eq_true_eq] at hc
        rcases hc with (rfl | rfl) | rfl <;> rfl
      rw [scanFrom.eq_def] at h
      dsimp only at h
      rw [if_pos hblank] at h
      exact ⟨fuel, h⟩

lemma scanFrom_separators {found tokens : List Token} (hcs : ∀ c ∈ cs, isSeparator c = true)
    {fuel : Nat} {rest : List Char} (h : scanFrom fuel found (cs ++ rest) = some tokens) :
    ∃ fuel', scanFrom fuel' found rest = some tokens := by
  induction cs generalizing fuel with
  | nil => exact ⟨fuel, h⟩
  | cons c cs ih =>
      obtain ⟨hc, hcs⟩ := List.forall_mem_cons.mp hcs
      obtain ⟨fuel, h⟩ := scanFrom_separator hc h
      exact ih hcs h

lemma scansFree_separators (hcs : cs.all isSeparator = true) : ScansFree cs [] := by
  intro depth fuel found rest tokens _ h
  have hshift : ∀ c ∈ shift depth cs, isSeparator c = true := by
    intro c hc
    obtain ⟨d, hd, hc⟩ := List.mem_flatMap.mp hc
    split at hc
    · rcases List.mem_cons.mp hc with rfl | hc
      · rfl
      · rw [List.eq_of_mem_replicate hc]
        rfl
    · rw [List.mem_singleton.mp hc]
      exact List.all_eq_true.mp hcs d hd
  obtain ⟨fuel, h⟩ := scanFrom_separators hshift h
  exact ⟨fuel, [], rfl, h⟩

lemma scansFree_blank : ScansFree [' '] [] := scansFree_separators rfl

/-- Whether a character begins a token, so that it is neither passed over nor opens a comment. -/
def isTokenStart (c : Char) : Bool :=
  !(c = ' ' || c = '\t' || c = ',' || c = '\uFEFF' || c = '\n' || c = '\r') && c ≠ '#'

/-- The string at the front, after its first quote. -/
def string? (fuel : Nat) (cs : List Char) : Option (Token × List Char) :=
  match cs with
  | '"' :: '"' :: rest => blockString? fuel [] [] rest
  | _ => quotedString? fuel [] cs

/-- The tokens from the beginning of a token on. -/
def scanToken (fuel : Nat) (found : List Token) (c : Char) (cs : List Char) :
    Option (List Token) :=
  if isMark c then scanFrom fuel (mark c :: found) cs
  else if c = '.' then
    match cs with
    | '.' :: '.' :: rest => scanFrom fuel (ellipsis :: found) rest
    | _ => none
  else if c = '"' then
    match string? fuel cs with
    | some (token, rest) => scanFrom fuel (token :: found) rest
    | none => none
  else if c.isDigit || c = '-' then
    match number? (c :: cs) with
    | some (token, rest) => scanFrom fuel (token :: found) rest
    | none => none
  else if isNameStart c then
    let text := String.ofList (c :: cs.takeWhile isNamePart)
    scanFrom fuel (name text :: found) (cs.dropWhile isNamePart)
  else none

lemma scanFrom_tokenStart {fuel : Nat} {found tokens : List Token} (hc : isTokenStart c = true)
    (h : scanFrom fuel found (c :: cs) = some tokens) :
    ∃ fuel', scanToken fuel' found c cs = some tokens := by
  cases fuel with
  | zero => cases h
  | succ fuel =>
      rw [isTokenStart, Bool.and_eq_true, Bool.not_eq_true', decide_eq_true_eq] at hc
      rw [scanFrom.eq_def] at h
      dsimp only at h
      rw [if_neg (by simp only [hc.1, Bool.false_eq_true, not_false_iff]), if_neg hc.2] at h
      exact ⟨fuel, h⟩

lemma scansFree_mark (hc : isMark c = true) : ScansFree [c] [.mark c] := by
  intro depth fuel found rest tokens _ h
  have hall : ∀ c ∈ "!&$():=@[]\x7b|\x7d".toList, isTokenStart c = true ∧ c ≠ '\n' :=
    List.forall_iff_forall_mem.mp (by decide)
  obtain ⟨hstart, hbreak⟩ := hall c (List.contains_iff_mem.mp hc)
  rw [shift_of_not_mem (by simpa using hbreak.symm), List.singleton_append] at h
  obtain ⟨fuel, h⟩ := scanFrom_tokenStart hstart h
  unfold scanToken at h
  rw [if_pos hc] at h
  exact ⟨fuel, [.mark c], rfl, h⟩

lemma scansFree_ellipsis : ScansFree ['.', '.', '.'] [.ellipsis] := by
  intro depth fuel found rest tokens _ h
  rw [shift_of_not_mem (by decide)] at h
  obtain ⟨fuel, h⟩ := scanFrom_tokenStart (by decide) h
  unfold scanToken at h
  rw [if_neg (by decide), if_pos rfl] at h
  exact ⟨fuel, [.ellipsis], rfl, h⟩

/-! ### Names -/

/-- A text that is a name. -/
def IsName (text : String) : Prop :=
  ∃ c cs, text.toList = c :: cs ∧ isNameStart c = true ∧ ∀ d ∈ cs, isNamePart d = true

instance : DecidablePred IsName := fun text =>
  decidable_of_iff (text.toList.head?.any isNameStart = true
      ∧ text.toList.tail.all isNamePart = true) (by
    rw [IsName]
    cases text.toList <;> simp)

lemma isNamePart_of_isNameStart (h : isNameStart c = true) : isNamePart c = true := by
  simp only [isNameStart, Bool.or_eq_true] at h
  simp only [isNamePart, Char.isAlphanum, Bool.or_eq_true]
  exact h.imp_left Or.inl

lemma not_isDigit_of_isNameStart (h : isNameStart c = true) : c.isDigit = false := by
  by_contra hdigit
  have hupTo : c.val ≤ 57 :=
    of_decide_eq_true (Bool.and_eq_true_iff.mp (Bool.eq_true_of_not_eq_false hdigit)).2
  rcases Bool.or_eq_true_iff.mp h with h | h
  · rcases Bool.or_eq_true_iff.mp h with hupper | hlower
    · have hfrom : 65 ≤ c.val := (of_decide_eq_true hupper).1
      exact absurd (UInt32.le_trans hfrom hupTo) (by decide)
    · have hfrom : 97 ≤ c.val := of_decide_eq_true (Bool.and_eq_true_iff.mp hlower).1
      exact absurd (UInt32.le_trans hfrom hupTo) (by decide)
  · obtain rfl := of_decide_eq_true h
    exact absurd hupTo (by decide)

/-- The characters that mean something outside names and numbers. -/
def outside : List Char := " \t,\uFEFF\n\r#!&$():=@[]\x7b|\x7d.\"".toList

lemma not_isNamePart_of_mem_outside : ∀ c ∈ outside, isNamePart c = false :=
  List.forall_iff_forall_mem.mp (by decide)

lemma not_mem_outside (h : isNamePart c = true ∨ c = '-') : c ∉ outside := by
  intro hc
  rcases h with h | rfl
  · rw [not_isNamePart_of_mem_outside c hc] at h
    cases h
  · revert hc
    decide

/-- A character that means nothing outside names and numbers begins one of them. -/
lemma scanFrom_word {fuel : Nat} {found tokens : List Token} (hc : isNamePart c = true ∨ c = '-')
    (h : scanFrom fuel found (c :: cs) = some tokens) : ∃ fuel',
    (if c.isDigit || c = '-' then
      (number? (c :: cs)).bind fun p => scanFrom fuel' (p.1 :: found) p.2
    else if isNameStart c then
      scanFrom fuel' (name (String.ofList (c :: cs.takeWhile isNamePart)) :: found)
        (cs.dropWhile isNamePart)
    else none) = some tokens := by
  have hnot : ∀ d ∈ outside, c ≠ d := by
    rintro d hd rfl
    exact not_mem_outside hc hd
  have hmark : ¬ isMark c = true := by
    intro hmark
    have hsub : ∀ d ∈ "!&$():=@[]\x7b|\x7d".toList, d ∈ outside :=
      List.forall_iff_forall_mem.mp (by decide)
    exact hnot c (hsub c (List.contains_iff_mem.mp hmark)) rfl
  have hstart : isTokenStart c = true := by
    have hsub : ∀ d ∈ " \t,\uFEFF\n\r#".toList, d ∈ outside :=
      List.forall_iff_forall_mem.mp (by decide)
    have hall : ∀ d ∈ " \t,\uFEFF\n\r#".toList, c ≠ d := fun d hd => hnot d (hsub d hd)
    simp only [isTokenStart, hall _ (by decide : ' ' ∈ _), hall _ (by decide : '\t' ∈ _),
      hall _ (by decide : ',' ∈ _), hall _ (by decide : '\uFEFF' ∈ _),
      hall _ (by decide : '\n' ∈ _), hall _ (by decide : '\r' ∈ _), hall _ (by decide : '#' ∈ _),
      decide_false, Bool.or_false, Bool.not_false, ne_eq, not_false_eq_true, decide_true,
      Bool.and_self]
  obtain ⟨fuel, h⟩ := scanFrom_tokenStart hstart h
  unfold scanToken at h
  rw [if_neg hmark, if_neg (hnot _ (by decide)), if_neg (hnot _ (by decide))] at h
  refine ⟨fuel, ?_⟩
  rw [← h]
  cases number? (c :: cs) <;> rfl

/-- Nothing that stands before what stops tokens goes on in it. -/
lemma Stops.head_mem_outside {rest : List Char} (h : Stops rest) :
    ∀ c, rest.head? = some c → c ∈ outside ∧ c ≠ '.' ∧ c ≠ '"' := by
  have hall : ∀ c ∈ " \n,:()]\x7d".toList, c ∈ outside ∧ c ≠ '.' ∧ c ≠ '"' :=
    List.forall_iff_forall_mem.mp (by decide)
  exact fun c hc => hall c (List.contains_iff_mem.mp (h c hc))

lemma takeWhile_append_of_stops {p : Char → Bool} (hp : ∀ c ∈ outside, p c = false)
    {rest : List Char} (hrest : Stops rest) (hcs : ∀ c ∈ cs, p c = true) :
    (cs ++ rest).takeWhile p = cs ∧ (cs ++ rest).dropWhile p = rest := by
  rw [List.takeWhile_append_of_pos hcs, List.dropWhile_append_of_pos hcs]
  cases rest with
  | nil => exact ⟨List.append_nil cs, rfl⟩
  | cons c rest =>
      have hc : p c = false := hp c (hrest.head_mem_outside c rfl).1
      rw [List.takeWhile_cons_of_neg (by simp [hc]), List.dropWhile_cons_of_neg (by simp [hc])]
      exact ⟨List.append_nil cs, rfl⟩

lemma IsName.not_mem_break {text : String} (h : IsName text) : '\n' ∉ text.toList := by
  obtain ⟨c, cs, htext, hc, hcs⟩ := h
  rw [htext]
  intro hmem
  have hall : ∀ d ∈ c :: cs, isNamePart d = true :=
    List.forall_mem_cons.mpr ⟨isNamePart_of_isNameStart hc, hcs⟩
  exact absurd (hall _ hmem) (by decide)

lemma scansWhole_name {text : String} (h : IsName text) : ScansWhole text.toList [.name text] := by
  intro depth fuel found rest tokens hrest hscan
  rw [shift_of_not_mem h.not_mem_break] at hscan
  obtain ⟨c, cs, htext, hc, hcs⟩ := h
  have hminus : c ≠ '-' := by
    rintro rfl
    exact absurd hc (by decide)
  rw [htext, List.cons_append] at hscan
  obtain ⟨fuel, hscan⟩ := scanFrom_word (.inl (isNamePart_of_isNameStart hc)) hscan
  rw [if_neg (by simp [not_isDigit_of_isNameStart hc, hminus]), if_pos hc] at hscan
  obtain ⟨htake, hdrop⟩ := takeWhile_append_of_stops not_isNamePart_of_mem_outside hrest hcs
  rw [htake, hdrop, ← htext, String.ofList_toList] at hscan
  exact ⟨fuel, [.name text], rfl, hscan⟩

end Token

end RemoteNodes
