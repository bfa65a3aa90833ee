import RemoteNodes.Proofs.GraphQL.Numerals
/-!
Strings as they are written, and what all tokens have in common.

* `Token.scansWhole_quoted`: **a string in quotes is scanned as one token**.
* `Token.ReadsBlock`: what a block string is read up to; `Token.scansWhole_block`: **a block string
  is scanned as one token**, at any depth.
* `Token.IsLexical`: a token as it is scanned; `Token.isLexical_of_scan?`: **whatever is scanned is
  lexical**.
-/

namespace RemoteNodes

namespace Token

variable {cs : List Char} {c : Char} {depth : Nat}

/-! ### Quoted strings -/

lemma readUnit?_append {a b c d : Char} {n : Nat} (h : Json.readUnit? [a, b, c, d] = some (n, []))
    (rest : List Char) : Json.readUnit? (a :: b :: c :: d :: rest) = some (n, rest) := by
  rw [Json.readUnit?] at h ⊢
  obtain ⟨x, hx, h⟩ := Option.bind_eq_some_iff.mp h
  obtain ⟨y, hy, h⟩ := Option.bind_eq_some_iff.mp h
  obtain ⟨z, hz, h⟩ := Option.bind_eq_some_iff.mp h
  obtain ⟨w, hw, h⟩ := Option.bind_eq_some_iff.mp h
  cases h
  rw [hx, hy, hz, hw]
  rfl

/-- The digits of an escaped control character are read as a character. -/
lemma escapedPoint?_of_control {n : Nat} (hn : n < 160) (rest : List Char) :
    ∃ c, escapedPoint? ((Text.hexDigits 4 n).map Char.toUpper ++ rest) = some (c, rest) := by
  obtain ⟨a, b, c, d, hdigits, hbrace, hread⟩ : ∃ a b c d,
      (Text.hexDigits 4 n).map Char.toUpper = [a, b, c, d]
        ∧ a ≠ '\x7b' ∧ Json.readUnit? [a, b, c, d] = some (n, []) := by
    refine ⟨_, _, _, _, rfl, ?_⟩
    revert n
    decide +kernel
  have hscalar : isScalarValue n = true := by
    rw [isScalarValue, Bool.or_eq_true, decide_eq_true_eq]
    exact .inl (hn.trans (by decide))
  refine ⟨Char.ofNat n, ?_⟩
  rw [hdigits]
  unfold escapedPoint?
  split
  · rename_i heq
    cases heq
    exact absurd rfl hbrace
  · refine Option.bind_eq_some_iff.mpr ⟨(n, rest), readUnit?_append hread rest, ?_⟩
    exact if_pos hscalar

/-- A character of a quoted string is written after a backslash, as a letter that stands for it or
with its digits, or it is written as it is. -/
lemma escapeChar_cases (c : Char) :
    (∃ e, Description.escapeChar c = ['\\', e] ∧ e ≠ 'u' ∧ e ≠ '\n'
        ∧ ∃ d, escapedLetter? e = some d)
      ∨ (c.toNat < 160 ∧ Description.escapeChar c
          = '\\' :: 'u' :: (Text.hexDigits 4 c.toNat).map Char.toUpper)
      ∨ Description.escapeChar c = [c] ∧ c ≠ '"' ∧ c ≠ '\\' ∧ c ≠ '\n' ∧ c ≠ '\r' := by
  unfold Description.escapeChar
  -- the characters that have letters
  iterate 7
    split
    · exact .inl ⟨_, rfl, by decide, by decide, _, rfl⟩
  split
  · rename_i hcontrol
    simp only [Bool.or_eq_true, Bool.and_eq_true, decide_eq_true_eq] at hcontrol
    exact .inr (.inl ⟨by omega, rfl⟩)
  · rename_i hquote hbackslash _ _ hfeed _ hreturn _
    exact .inr (.inr ⟨rfl, hquote, hbackslash, hfeed, hreturn⟩)

/-- One character of a quoted string. -/
lemma quotedString?_escapeChar {fuel : Nat} {acc : List Char} {read : Token × List Char}
    (h : quotedString? fuel acc (Description.escapeChar c ++ cs) = some read) :
    ∃ fuel' acc', quotedString? fuel' acc' cs = some read := by
  cases fuel with
  | zero => cases h
  | succ fuel =>
      rcases escapeChar_cases c with ⟨e, heq, hletter, -, d, hd⟩ | ⟨hcontrol, heq⟩
        | ⟨heq, hquote, hbackslash, hfeed, hreturn⟩
      · rw [heq, List.cons_append, quotedString?.eq_def] at h
        dsimp only [List.cons_append] at h
        rw [if_neg (by decide), if_neg (by decide), if_pos rfl] at h
        split at h
        · rename_i hcs
          exact absurd (List.cons.inj hcs).1 hletter
        · rename_i hcs
          obtain ⟨rfl, rfl⟩ := List.cons.inj hcs
          rw [hd] at h
          exact ⟨fuel, _, h⟩
        · cases h
      · obtain ⟨d, hd⟩ := escapedPoint?_of_control hcontrol cs
        rw [heq, quotedString?.eq_def] at h
        dsimp only [List.cons_append] at h
        rw [if_neg (by decide), if_neg (by decide), if_pos rfl] at h
        replace h : (escapedPoint? ((Text.hexDigits 4 c.toNat).map Char.toUpper ++ cs)).bind
          (fun p => quotedString? fuel (p.1 :: acc) p.2) = some read := h
        rw [hd] at h
        exact ⟨fuel, _, h⟩
      · rw [heq, List.singleton_append, quotedString?.eq_def] at h
        dsimp only at h
        rw [if_neg hquote, if_neg (by simp [hfeed, hreturn]), if_neg hbackslash] at h
        exact ⟨fuel, _, h⟩

/-- A quoted string is read up to its end. -/
lemma quotedString?_escaped {fuel : Nat} {acc value rest : List Char} {read : Token × List Char}
    (h : quotedString? fuel acc (value.flatMap Description.escapeChar ++ '"' :: rest) = some read) :
    read.1.blur = .string "" false ∧ read.2 = rest := by
  induction value generalizing fuel acc with
  | nil =>
      cases fuel with
      | zero => cases h
      | succ fuel =>
          rw [List.flatMap_nil, List.nil_append, quotedString?.eq_def] at h
          dsimp only at h
          rw [if_pos rfl] at h
          cases h
          exact ⟨rfl, rfl⟩
  | cons c value ih =>
      rw [List.flatMap_cons, List.append_assoc] at h
      obtain ⟨fuel, acc, h⟩ := quotedString?_escapeChar h
      exact ih h

/-- A character is written on one line and without a quote in front. -/
lemma escapeChar_shape (c : Char) : '\n' ∉ Description.escapeChar c
    ∧ ∃ d ds, Description.escapeChar c = d :: ds ∧ d ≠ '"' := by
  rcases escapeChar_cases c with ⟨e, heq, -, hbreak, -⟩ | ⟨hcontrol, heq⟩
    | ⟨heq, hquote, -, hfeed, -⟩
  · rw [heq]
    exact ⟨by simpa using Ne.symm hbreak, _, _, rfl, by decide⟩
  · have hdigits : ∀ n < 160, '\n' ∉ (Text.hexDigits 4 n).map Char.toUpper := by decide +kernel
    rw [heq]
    exact ⟨by simpa using hdigits _ hcontrol, _, _, rfl, by decide⟩
  · rw [heq]
    exact ⟨by simpa using Ne.symm hfeed, _, _, rfl, hquote⟩

/-- What opens with a quote is read as a string. -/
lemma scanFrom_quote {fuel : Nat} {found tokens : List Token}
    (h : scanFrom fuel found ('"' :: cs) = some tokens) :
    ∃ fuel' token rest, string? fuel' cs = some (token, rest)
      ∧ scanFrom fuel' (token :: found) rest = some tokens := by
  obtain ⟨fuel, h⟩ := scanFrom_tokenStart (by decide) h
  unfold scanToken at h
  rw [if_neg (by decide), if_neg (by decide), if_pos rfl] at h
  split at h
  · rename_i token rest hread
    exact ⟨fuel, token, rest, hread, h⟩
  · cases h

lemma scansWhole_quoted (value : String) :
    ScansWhole (Description.quotedText value).toList [.string "" false] := by
  intro depth fuel found rest tokens hrest hscan
  have hbreak : '\n' ∉ (Description.quotedText value).toList := by
    rw [Description.quotedText, String.toList_ofList, List.cons_append, List.mem_cons,
      List.mem_append, List.mem_flatMap, not_or, not_or]
    refine ⟨by decide, fun ⟨c, _, hc⟩ => (escapeChar_shape c).1 hc, by decide⟩
  rw [shift_of_not_mem hbreak, Description.quotedText, String.toList_ofList, List.cons_append,
    List.cons_append, List.append_assoc] at hscan
  obtain ⟨fuel, token, rest', hread, hscan⟩ := scanFrom_quote hscan
  have hquoted : quotedString? fuel []
      (value.toList.flatMap Description.escapeChar ++ '"' :: rest) = some (token, rest') := by
    unfold string? at hread
    split at hread
    · rename_i more heq
      cases hvalue : value.toList with
      | nil =>
          -- nothing stands between the quotes, and no third one follows
          rw [hvalue] at heq
          cases heq
          exact absurd rfl (hrest.head_mem_outside '"' rfl).2.2
      | cons c cs =>
          obtain ⟨-, d, ds, hd, hquote⟩ := escapeChar_shape c
          rw [hvalue, List.flatMap_cons, hd, List.cons_append, List.cons_append] at heq
          exact absurd (List.cons.inj heq).1 hquote
    · exact hread
  obtain ⟨htoken, hend⟩ := quotedString?_escaped hquoted
  rw [show rest' = rest from hend] at hscan
  exact ⟨fuel, [token], congrArg (· :: []) htoken, hscan⟩

/-! ### Block strings -/

/-- What the rest of a block string is read up to, and what follows it. -/
def ReadsBlock (cs : List Char) : Prop :=
  ∀ (fuel : Nat) (before : List (List Char)) (line rest : List Char) (read : Token × List Char),
    blockString? fuel before line (cs ++ '"' :: '"' :: '"' :: rest) = some read →
      read.1.blur = .string "" false ∧ read.2 = rest

lemma readsBlock_nil : ReadsBlock [] := by
  intro fuel before line rest read h
  cases fuel with
  | zero => cases h
  | succ fuel =>
      rw [List.nil_append, blockString?.eq_def] at h
      dsimp only at h
      cases h
      exact ⟨rfl, rfl⟩

/-- Escaped quotes are passed over. -/
lemma ReadsBlock.escape (h : ReadsBlock cs) : ReadsBlock ('\\' :: '"' :: '"' :: '"' :: cs) := by
  intro fuel before line rest read hread
  cases fuel with
  | zero => cases hread
  | succ fuel =>
      simp only [List.cons_append] at hread
      rw [blockString?.eq_def] at hread
      dsimp only at hread
      exact h fuel _ _ rest read hread

/-- A character is passed over unless quotes begin with it. -/
lemma ReadsBlock.cons (h : ReadsBlock cs)
    (hquotes : c = '"' → ∀ rest more, cs ++ '"' :: '"' :: '"' :: rest ≠ '"' :: '"' :: more)
    (hescaped : c = '\\' →
      ∀ rest more, cs ++ '"' :: '"' :: '"' :: rest ≠ '"' :: '"' :: '"' :: more) :
    ReadsBlock (c :: cs) := by
  intro fuel before line rest read hread
  cases fuel with
  | zero => cases hread
  | succ fuel =>
      rw [List.cons_append, blockString?.eq_def] at hread
      dsimp only at hread
      split at hread
      · cases hread
      · rename_i heq
        obtain ⟨hc, heq⟩ := List.cons.inj heq
        exact absurd heq (hquotes hc _ _)
      · rename_i heq
        obtain ⟨hc, heq⟩ := List.cons.inj heq
        exact absurd heq (hescaped hc _ _)
      · -- the line feed counts as one break with the return in front of it
        rename_i more heq
        obtain ⟨-, heq⟩ := List.cons.inj heq
        refine h (fuel + 1) before line rest read ?_
        rw [heq, blockString?.eq_def]
        exact hread
      · rename_i heq
        obtain ⟨rfl, rfl⟩ := List.cons.inj heq
        split at hread
        · exact h _ _ _ _ _ hread
        · exact h _ _ _ _ _ hread

lemma ReadsBlock.cons_of_ne (h : ReadsBlock cs) (hc : c ≠ '"' ∧ c ≠ '\\') : ReadsBlock (c :: cs) :=
  h.cons (fun hquote => absurd hquote hc.1) fun hescaped => absurd hescaped hc.2

lemma ReadsBlock.blanks (h : ReadsBlock cs) (count : Nat) :
    ReadsBlock (List.replicate count ' ' ++ cs) := by
  induction count with
  | zero => exact h
  | succ count ih => exact ih.cons_of_ne (by decide)

/-- A line break and the blanks after it are passed over like other characters. -/
lemma ReadsBlock.shift_cons (h : ReadsBlock (shift depth cs)) (hc : c ≠ '"' ∧ c ≠ '\\') :
    ReadsBlock (shift depth (c :: cs)) := by
  rw [Token.shift_cons]
  split
  · exact (h.blanks _).cons_of_ne (by decide)
  · exact h.cons_of_ne hc

/-- What stands before the closing quotes: a line break, or nothing if no quote and no backslash is
the last character. -/
def Closes (value after : List Char) : Prop :=
  after = ['\n'] ∨ after = [] ∧ ∀ c, value.getLast? = some c → c ≠ '"' ∧ c ≠ '\\'

lemma Closes.tail {value after : List Char} (h : Closes (c :: value) after) :
    Closes value after := by
  refine h.imp_right fun ⟨hafter, hlast⟩ => ⟨hafter, fun d hd => hlast d ?_⟩
  cases value with
  | nil => cases hd
  | cons e value => rwa [List.getLast?_cons_cons]

lemma Closes.ne_nil {value after : List Char} (h : Closes (c :: value) after)
    (hc : c = '"' ∨ c = '\\') : value ≠ [] ∨ after = ['\n'] := by
  refine h.symm.imp_left fun ⟨_, hlast⟩ hvalue => ?_
  obtain ⟨hquote, hbackslash⟩ := hlast c (by rw [hvalue]; rfl)
  exact hc.elim hquote hbackslash

/-- A value that begins with fewer than three quotes is escaped into its first character and the
rest of it. -/
lemma escapeQuotes_cons {value : List Char} (h : ∀ more, c :: value ≠ '"' :: '"' :: '"' :: more) :
    Description.escapeQuotes (c :: value) = c :: Description.escapeQuotes value := by
  rw [Description.escapeQuotes]
  rintro more rfl rfl
  exact h more rfl

/-- A quote at the front of an escaped value is one of the value. -/
lemma quote_of_shift_escapeQuotes {value after rest more : List Char} {depth : Nat}
    (hnot : ∀ more, value ≠ '"' :: '"' :: '"' :: more) (hne : value ≠ [] ∨ after = ['\n'])
    (h : shift depth (Description.escapeQuotes value ++ after) ++ rest = '"' :: more) :
    ∃ value', value = '"' :: value'
      ∧ shift depth (Description.escapeQuotes value' ++ after) ++ rest = more := by
  cases value with
  | nil =>
      rw [hne.resolve_left (absurd rfl)] at h
      cases h
  | cons c value =>
      rw [escapeQuotes_cons hnot, List.cons_append, Token.shift_cons] at h
      split at h
      · cases h
      · obtain ⟨rfl, hmore⟩ := List.cons.inj h
        exact ⟨value, rfl, hmore⟩

lemma readsBlock_escapeQuotes {value after : List Char} (depth : Nat) (h : Closes value after) :
    ReadsBlock (shift depth (Description.escapeQuotes value ++ after)) := by
  fun_induction Description.escapeQuotes value with
  | case1 =>
      rcases h with rfl | ⟨rfl, -⟩
      · exact ReadsBlock.shift_cons readsBlock_nil (by decide)
      · exact readsBlock_nil
  | case2 value ih =>
      exact (ih h.tail.tail.tail).escape
  | case3 c value hnot ih =>
      rw [List.cons_append]
      by_cases hc : c = '"' ∨ c = '\\'
      · have hne := h.ne_nil hc
        have hbreak : c ≠ '\n' := by
          rcases hc with rfl | rfl <;> decide
        rw [Token.shift_cons, if_neg hbreak, List.singleton_append]
        refine (ih h.tail).cons (fun hquote rest more heq => ?_) fun _ rest more heq => ?_
        · -- two quotes after this one would be three in the value
          subst hquote
          obtain ⟨value, rfl, hfirst⟩ := quote_of_shift_escapeQuotes (fun more hvalue =>
            hnot _ rfl hvalue) hne heq
          obtain ⟨value, rfl, -⟩ := quote_of_shift_escapeQuotes (fun more hvalue =>
            hnot _ rfl (congrArg _ hvalue)) (h.tail.ne_nil (.inl rfl)) hfirst
          exact hnot _ rfl rfl
        · -- three quotes after a backslash would be escaped
          by_cases hvalue : ∃ more, value = '"' :: '"' :: '"' :: more
          · obtain ⟨value, rfl⟩ := hvalue
            cases heq
          · replace hvalue : ∀ more, value ≠ '"' :: '"' :: '"' :: more := fun more heq =>
              hvalue ⟨more, heq⟩
            obtain ⟨value, rfl, hfirst⟩ := quote_of_shift_escapeQuotes hvalue hne heq
            obtain ⟨value, rfl, hsecond⟩ := quote_of_shift_escapeQuotes (fun more heq =>
              hvalue _ (congrArg _ heq)) (h.tail.ne_nil (.inl rfl)) hfirst
            obtain ⟨value, rfl, -⟩ := quote_of_shift_escapeQuotes (fun more heq =>
              hvalue _ (congrArg (fun cs => '"' :: '"' :: cs) heq))
              (h.tail.tail.ne_nil (.inl rfl)) hsecond
            exact hvalue _ rfl
      · exact (ih h.tail).shift_cons (not_or.mp hc)

/-- A block string is its value between quotes, which a line break keeps apart from a quote or a
backslash at its end. -/
lemma exists_of_blockText (value : String) : ∃ before after : List Char,
    (Description.blockText value).toList = '"' :: '"' :: '"' :: (before
      ++ (Description.escapeQuotes value.toList ++ after) ++ ['"', '"', '"'])
    ∧ (before = [] ∨ before = ['\n']) ∧ Closes value.toList after := by
  have hoptional (condition : Bool) : (if condition then "\n" else "").toList = []
      ∨ (if condition then "\n" else "").toList = ['\n'] := by
    cases condition
    · exact .inl rfl
    · exact .inr rfl
  have hquotes : "\"\"\"".toList = ['"', '"', '"'] := rfl
  unfold Description.blockText
  extract_lets raw escaped ls isSingle breakBefore endsInQuotes breakAfter spread stays before after
  refine ⟨before.toList, after.toList, ?_, hoptional _, ?_⟩
  · simp [hquotes, escaped, raw]
  · cases hbreak : spread || breakAfter with
    | true => exact .inl (by simp only [after, hbreak]; rfl)
    | false =>
        refine .inr ⟨by simp only [after, hbreak]; rfl, fun c hc => ?_⟩
        obtain ⟨hspread, hbreakAfter⟩ := Bool.or_eq_false_iff.mp hbreak
        have hends : endsInQuotes = false := (Bool.or_eq_false_iff.mp hspread).2
        simp only [breakAfter, raw, hends, hc] at hbreakAfter
        simpa using hbreakAfter

lemma scansWhole_block (value : String) :
    ScansWhole (Description.blockText value).toList [.string "" false] := by
  obtain ⟨before, after, htext, hbefore, hafter⟩ := exists_of_blockText value
  intro depth fuel found rest tokens _ hscan
  have hquotes : shift depth (Description.blockText value).toList = '"' :: '"' :: '"' ::
      (shift depth (before ++ (Description.escapeQuotes value.toList ++ after))
        ++ ['"', '"', '"']) := by
    rw [htext, ← List.cons_append, ← List.cons_append, ← List.cons_append, shift_append]
    rfl
  rw [hquotes, List.cons_append, List.cons_append, List.cons_append, List.append_assoc] at hscan
  obtain ⟨fuel, token, rest', hread, hscan⟩ := scanFrom_quote hscan
  have hblock : ReadsBlock
      (shift depth (before ++ (Description.escapeQuotes value.toList ++ after))) := by
    have hvalue := readsBlock_escapeQuotes depth hafter
    rcases hbefore with rfl | rfl
    · exact hvalue
    · exact hvalue.shift_cons (by decide)
  obtain ⟨htoken, hend⟩ := hblock fuel [] [] rest (token, rest') hread
  rw [show rest' = rest from hend] at hscan
  exact ⟨fuel, [token], congrArg (· :: []) htoken, hscan⟩

/-! ### Tokens that have been scanned -/

/-- Tokens as they are scanned: names are names, numbers are numbers. -/
def IsLexical : Token → Prop
  | mark c => isMark c = true
  | name text => IsName text
  | int text => IsNumeral (int text) text
  | float text => IsNumeral (float text) text
  | ellipsis | string _ _ => True

lemma isLexical_blur {token : Token} : token.blur.IsLexical ↔ token.IsLexical := by
  cases token <;> exact Iff.rfl

lemma isLexical_of_quotedString? {fuel : Nat} {acc : List Char} {read : Token × List Char}
    (h : quotedString? fuel acc cs = some read) : read.1.IsLexical := by
  induction fuel generalizing acc cs with
  | zero => cases h
  | succ fuel ih =>
      cases cs with
      | nil => cases h
      | cons c cs =>
          rw [quotedString?.eq_def] at h
          dsimp only at h
          split at h
          · cases h
            trivial
          split at h
          · cases h
          split at h
          · split at h
            · obtain ⟨_, -, h⟩ := Option.bind_eq_some_iff.mp h
              exact ih h
            · obtain ⟨_, -, h⟩ := Option.bind_eq_some_iff.mp h
              exact ih h
            · cases h
          · exact ih h

lemma isLexical_of_blockString? {fuel : Nat} {before : List (List Char)} {line : List Char}
    {read : Token × List Char} (h : blockString? fuel before line cs = some read) :
    read.1.IsLexical := by
  induction fuel generalizing before line cs with
  | zero => cases h
  | succ fuel ih =>
      rw [blockString?.eq_def] at h
      dsimp only at h
      split at h
      · cases h
      · cases h
        trivial
      · exact ih h
      · exact ih h
      · split at h
        · exact ih h
        · exact ih h

/-- The string at the front is one token. -/
lemma isLexical_of_string? {fuel : Nat} {read : Token × List Char}
    (h : string? fuel cs = some read) : read.1.IsLexical := by
  unfold string? at h
  split at h
  · exact isLexical_of_blockString? h
  · exact isLexical_of_quotedString? h

/-- One step of scanning passes over characters, or it finds a lexical token. -/
lemma exists_of_scanFrom_succ {fuel : Nat} {found tokens : List Token}
    (h : scanFrom (fuel + 1) found (c :: cs) = some tokens) :
    ∃ found' rest, scanFrom fuel found' rest = some tokens
      ∧ ∀ t ∈ found', t ∈ found ∨ t.IsLexical := by
  have hpassed : ∀ t ∈ found, t ∈ found ∨ t.IsLexical := fun _ => .inl
  have hfound {token : Token} (h : token.IsLexical) :
      ∀ t ∈ token :: found, t ∈ found ∨ t.IsLexical :=
    List.forall_mem_cons.mpr ⟨.inr h, hpassed⟩
  rw [scanFrom.eq_def] at h
  dsimp only at h
  split at h
  · exact ⟨_, _, h, hpassed⟩
  split at h
  · exact ⟨_, _, h, hpassed⟩
  split at h
  · rename_i hmark
    exact ⟨_, _, h, hfound hmark⟩
  split at h
  · split at h
    · exact ⟨_, _, h, hfound trivial⟩
    · cases h
  split at h
  · split at h
    · rename_i token rest hread
      exact ⟨_, _, h, hfound (isLexical_of_string? hread)⟩
    · cases h
  split at h
  · split at h
    · rename_i token rest hread
      obtain ⟨text, -, htoken, hnumeral⟩ := number?_eq_some hread
      refine ⟨_, _, h, hfound ?_⟩
      rcases htoken with rfl | rfl
      · exact hnumeral
      · exact hnumeral
    · cases h
  split at h
  · rename_i hstart
    refine ⟨_, _, h, hfound ⟨c, cs.takeWhile isNamePart, String.toList_ofList, hstart, ?_⟩⟩
    exact fun d => List.mem_takeWhile_imp
  · cases h

/-- Whatever is scanned is lexical. -/
lemma isLexical_of_scanFrom {fuel : Nat} {found tokens : List Token}
    (h : scanFrom fuel found cs = some tokens) (hfound : ∀ t ∈ found, t.IsLexical) :
    ∀ t ∈ tokens, t.IsLexical := by
  induction fuel generalizing found cs with
  | zero => cases h
  | succ fuel ih =>
      cases cs with
      | nil =>
          rw [scanFrom] at h
          cases h
          simpa using hfound
      | cons c cs =>
          obtain ⟨found', rest, h, hfound'⟩ := exists_of_scanFrom_succ h
          exact ih h fun t ht => (hfound' t ht).elim (hfound t) id

lemma isLexical_of_scan? {text : String} {tokens : List Token} (h : scan? text = some tokens) :
    ∀ t ∈ tokens, t.IsLexical :=
  isLexical_of_scanFrom h (by simp)

end Token

end RemoteNodes
