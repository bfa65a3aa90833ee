import RemoteNodes.Proofs.GraphQL.Strings
/-!
The tokens that selections are written as.

* `Literal.tokens`, `Argument.tokens`, `Directive.tokens`, `Selection.tokens`, `Fragment.tokens`:
  the tokens, without the values of strings.
* `Token.Written`: a text that is scanned as some tokens; `Written.join`, `Written.wrap`,
  `Written.block`: texts put together.
* `Literal.written`, `Selection.written`: what is made of lexical tokens is scanned as them.
* `Fragment.scan?_text`: **the tokens of a fragment's text are those of the fragment**.
-/

namespace RemoteNodes

/-! ### Tokens -/

namespace Token

/-- Tokens between two others, or nothing. -/
def wrapped (opening : Token) (ts : List Token) (closing : Token) : List Token :=
  if ts = [] then [] else opening :: ts ++ [closing]

end Token

mutual
/-- The tokens of a literal. -/
def Literal.tokens : Literal → List Token
  | .variable name => [.mark '$', .name name]
  | .int text => [.int text]
  | .float text => [.float text]
  | .string _ _ => [.string "" false]
  | .boolean true => [.name "true"]
  | .boolean false => [.name "false"]
  | .null => [.name "null"]
  | .enum name => [.name name]
  | .list items => .mark '[' :: literalTokens items ++ [.mark ']']
  | .object fields => .mark '\x7b' :: objectTokens fields ++ [.mark '\x7d']
/-- The tokens of literals. -/
def literalTokens : List Literal → List Token
  | [] => []
  | x :: xs => x.tokens ++ literalTokens xs
/-- The tokens of the fields of an object literal. -/
def objectTokens : List (String × Literal) → List Token
  | [] => []
  | (k, x) :: xs => .name k :: .mark ':' :: x.tokens ++ objectTokens xs
end

/-- The tokens of an argument. -/
def Argument.tokens (a : Argument) : List Token := .name a.name :: .mark ':' :: a.value.tokens

/-- The tokens of arguments in parentheses. -/
def argumentTokens (arguments : List Argument) : List Token :=
  Token.wrapped (.mark '(') (arguments.flatMap Argument.tokens) (.mark ')')

/-- The tokens of a directive. -/
def Directive.tokens (d : Directive) : List Token :=
  .mark '@' :: .name d.name :: argumentTokens d.arguments

/-- The tokens of directives. -/
def directiveTokens (ds : List Directive) : List Token := ds.flatMap Directive.tokens

/-- The tokens of a field up to its selection set. -/
def headTokens (alias? : Option String) (name : String) (arguments : List Argument)
    (directives : List Directive) : List Token :=
  alias?.toList.flatMap (fun key => [.name key, .mark ':']) ++ .name name ::
    (argumentTokens arguments ++ directiveTokens directives)

/-- The tokens of an inline fragment up to its selection set. -/
def inlineTokens (condition? : Option String) (directives : List Directive) : List Token :=
  .ellipsis :: (condition?.toList.flatMap (fun condition => [.name "on", .name condition])
    ++ directiveTokens directives)

mutual
/-- The tokens of a selection. -/
def Selection.tokens : Selection → List Token
  | .field alias? name arguments directives none => headTokens alias? name arguments directives
  | .field alias? name arguments directives (some selections) =>
    headTokens alias? name arguments directives
      ++ Token.wrapped (.mark '\x7b') (selectionTokens selections) (.mark '\x7d')
  | .spread fragment directives => .ellipsis :: .name fragment :: directiveTokens directives
  | .inline condition? directives selections =>
    inlineTokens condition? directives
      ++ Token.wrapped (.mark '\x7b') (selectionTokens selections) (.mark '\x7d')
/-- The tokens of selections. -/
def selectionTokens : List Selection → List Token
  | [] => []
  | s :: ss => s.tokens ++ selectionTokens ss
end

/-- The tokens of a selection set in braces. -/
def setTokens (selections : List Selection) : List Token :=
  Token.wrapped (.mark '\x7b') (selectionTokens selections) (.mark '\x7d')

/-- The tokens of a fragment without a description. -/
def Fragment.tokens (f : Fragment) : List Token :=
  .name "fragment" :: .name f.name :: .name "on" :: .name f.condition ::
    (directiveTokens f.directives ++ setTokens f.selections)

lemma literalTokens_eq_flatMap (xs : List Literal) :
    literalTokens xs = xs.flatMap Literal.tokens := by
  induction xs with
  | nil => rfl
  | cons x xs ih => rw [literalTokens, ih, List.flatMap_cons]

lemma objectTokens_eq_flatMap (xs : List (String × Literal)) :
    objectTokens xs = xs.flatMap fun p => .name p.1 :: .mark ':' :: p.2.tokens := by
  induction xs with
  | nil => rfl
  | cons x xs ih => rw [objectTokens, ih, List.flatMap_cons]

lemma selectionTokens_eq_flatMap (ss : List Selection) :
    selectionTokens ss = ss.flatMap Selection.tokens := by
  induction ss with
  | nil => rfl
  | cons s ss ih => rw [selectionTokens, ih, List.flatMap_cons]

/-- Tokens that are all lexical. -/
def Lexical (ts : List Token) : Prop := ∀ t ∈ ts, t.IsLexical

section Lexical

variable {t : Token} {ts us : List Token}

@[simp] lemma lexical_nil : Lexical [] := List.forall_mem_nil _

@[simp] lemma lexical_cons : Lexical (t :: ts) ↔ t.IsLexical ∧ Lexical ts := List.forall_mem_cons

@[simp] lemma lexical_append : Lexical (ts ++ us) ↔ Lexical ts ∧ Lexical us :=
  List.forall_mem_append

lemma lexical_flatMap {α : Type} {f : α → List Token} {xs : List α} :
    Lexical (xs.flatMap f) ↔ ∀ x ∈ xs, Lexical (f x) := by
  simp only [Lexical, List.mem_flatMap]
  exact ⟨fun h x hx t ht => h t ⟨x, hx, ht⟩, fun h t ⟨x, hx, ht⟩ => h x hx t ht⟩

lemma lexical_wrapped {opening closing : Char} (hopening : Token.isMark opening = true)
    (hclosing : Token.isMark closing = true) :
    Lexical (Token.wrapped (.mark opening) ts (.mark closing)) ↔ Lexical ts := by
  rw [Token.wrapped]
  split
  · rename_i hnil
    rw [hnil]
  · simp [Token.IsLexical, hopening, hclosing]

end Lexical

/-! ### Written texts -/

namespace Token

open Layout

/-- A text that is scanned as some tokens before anything that ends the last one. An empty text is
that of no tokens. -/
structure Written (text : String) (us : List Token) : Prop where
  scans : ScansWhole text.toList us
  empty : text = "" ↔ us = []

section Written

variable {text before after separator : String} {us bs as : List Token} {texts : List String}
  {uss : List (List Token)}

lemma written_nil : Written "" [] := ⟨scans_nil, Iff.rfl |>.trans (by simp)⟩

lemma written_name {name : String} (h : IsName name) : Written name [.name name] where
  scans := scansWhole_name h
  empty := by
    obtain ⟨c, cs, htext, -⟩ := h
    simp [← String.toList_eq_nil_iff, htext]

/-- A text between two others, which stay away together with it. -/
lemma Written.wrap (h : Written text us) (hbefore : ScansFree before.toList bs)
    (hafter : after = "" ∧ as = [] ∨ ∃ c cs, after.toList = c :: cs ∧ isStop c = true
      ∧ ScansWhole (c :: cs) as) :
    Written (Layout.wrap before text after) (if us = [] then [] else bs ++ us ++ as) := by
  rw [Layout.wrap]
  by_cases htext : text = ""
  · rw [if_pos (by simpa using htext), if_pos (h.empty.mp htext)]
    exact written_nil
  · have hus : us ≠ [] := fun hus => htext (h.empty.mpr hus)
    rw [if_neg (by simpa using htext), if_neg hus]
    refine ⟨?_, by simp [hus, htext]⟩
    rw [String.toList_append, String.toList_append]
    rcases hafter with ⟨rfl, rfl⟩ | ⟨c, cs, hafter, hc, has⟩
    · simpa using hbefore.append h.scans
    · rw [hafter, List.append_assoc, List.append_assoc]
      exact hbefore.append (h.scans.append has hc)

/-- Texts that are not empty, with a separator between them. -/
lemma written_intercalate {c : Char} {cs : List Char} (hseparator : separator.toList = c :: cs)
    (hc : isStop c = true) (hcs : (c :: cs).all isSeparator = true)
    (h : List.Forall₂ Written texts uss) (hne : ∀ text ∈ texts, text ≠ "") :
    Written (separator.intercalate texts) uss.flatten := by
  induction h with
  | nil => exact written_nil
  | @cons first us texts uss hfirst hrest ih =>
      obtain ⟨hfilled, hne⟩ := List.forall_mem_cons.mp hne
      cases hrest with
      | nil =>
          rw [String.intercalate_singleton, List.flatten_singleton]
          exact hfirst
      | cons hsecond hrest =>
          have hscans := (scansFree_separators hcs).append (ih hne).scans
          rw [String.intercalate_cons_cons, List.flatten_cons]
          refine ⟨?_, ?_⟩
          · rw [String.toList_append, String.toList_append, List.append_assoc, hseparator]
            exact hfirst.scans.append hscans hc
          · have hus : us ≠ [] := fun hus => hfilled (hfirst.empty.mpr hus)
            simp [hfilled, hus]

/-- Texts with a separator between them, without the empty ones. -/
lemma Written.join {c : Char} {cs : List Char} (hseparator : separator.toList = c :: cs)
    (hc : isStop c = true) (hcs : (c :: cs).all isSeparator = true)
    (h : List.Forall₂ Written texts uss) : Written (Layout.join separator texts) uss.flatten := by
  obtain ⟨uss', h', hflatten⟩ : ∃ uss', List.Forall₂ Written (texts.filter (· != "")) uss'
      ∧ uss'.flatten = uss.flatten := by
    induction h with
    | nil => exact ⟨[], .nil, rfl⟩
    | @cons text us texts uss hfirst _ ih =>
        obtain ⟨uss', h', hflatten⟩ := ih
        by_cases htext : text = ""
        · refine ⟨uss', ?_, ?_⟩
          · rwa [List.filter_cons_of_neg (by simpa using htext)]
          · rw [hflatten, List.flatten_cons, hfirst.empty.mp htext, List.nil_append]
        · refine ⟨us :: uss', ?_, by rw [List.flatten_cons, List.flatten_cons, hflatten]⟩
          rw [List.filter_cons_of_pos (by simpa using htext)]
          exact .cons hfirst h'
  rw [Layout.join, ← hflatten]
  exact written_intercalate hseparator hc hcs h' fun text htext =>
    by simpa using (List.mem_filter.mp htext).2

lemma toList_indentBreaks (text : String) :
    (Layout.indentBreaks text).toList = shift 1 text.toList := by
  rw [Layout.indentBreaks]
  split
  · rw [String.toList_ofList]
    rfl
  · rename_i hbreak
    rw [String.contains_char_eq] at hbreak
    rw [shift_of_not_mem (by simpa using hbreak)]

/-- A text after blanks, which stay away together with it. -/
lemma Written.spaced (h : Written text us) (hbefore : before.toList.all isSeparator = true) :
    Written (Layout.wrap before text) us := by
  have hwrap := h.wrap (scansFree_separators hbefore) (.inl ⟨rfl, rfl⟩)
  rwa [List.nil_append, List.append_nil, ite_eq_right_iff.mpr fun h => h.symm] at hwrap

/-- A text with all of its lines further in. -/
lemma Written.indent (h : Written text us) : Written (Layout.indent text) us := by
  have hbreaks : Written (Layout.indentBreaks text) us := by
    refine ⟨?_, ?_⟩
    · rw [toList_indentBreaks]
      exact h.scans.shift
    · rw [← h.empty, ← String.toList_eq_nil_iff, ← String.toList_eq_nil_iff, toList_indentBreaks,
        ← List.head?_eq_none_iff, head?_shift, List.head?_eq_none_iff]
  exact hbreaks.spaced rfl

/-- A mark with a line break after it, and one with a line break in front of it. -/
lemma scansFree_opening {c : Char} (hc : isMark c = true) : ScansFree [c, '\n'] [.mark c] :=
  (scansFree_mark hc).append (scansFree_separators rfl)

lemma scansFree_closing {c : Char} (hc : isMark c = true) : ScansFree ['\n', c] [.mark c] :=
  have hbreak : ScansFree ['\n'] [] := scansFree_separators rfl
  hbreak.append (scansFree_mark hc)

/-- Texts on lines of their own between two marks. -/
lemma Written.lines {opening closing : Char} (hopening : isMark opening = true)
    (hclosing : isMark closing = true) (hbefore : before.toList = [opening, '\n'])
    (hafter : after.toList = ['\n', closing]) (h : List.Forall₂ Written texts uss) :
    Written (Layout.wrap before (Layout.indent (Layout.join "\n" texts)) after)
      (wrapped (.mark opening) uss.flatten (.mark closing)) := by
  have hlines : Written (Layout.join "\n" texts) uss.flatten := .join rfl rfl rfl h
  refine hlines.indent.wrap (hbefore ▸ scansFree_opening hopening) (.inr ⟨_, _, hafter, rfl, ?_⟩)
  exact (scansFree_closing hclosing).mono fun _ _ => trivial

/-- Texts on one line between two marks. -/
lemma Written.between {opening closing : Char} (hopening : isMark opening = true)
    (hclosing : isMark closing = true) (hstop : isStop closing = true)
    (hbefore : before.toList = [opening]) (hafter : after.toList = [closing])
    (h : List.Forall₂ Written texts uss) :
    Written (Layout.wrap before (Layout.join ", " texts) after)
      (wrapped (.mark opening) uss.flatten (.mark closing)) := by
  have hline : Written (Layout.join ", " texts) uss.flatten := .join rfl rfl rfl h
  refine hline.wrap (hbefore ▸ scansFree_mark hopening) (.inr ⟨_, _, hafter, hstop, ?_⟩)
  exact (scansFree_mark hclosing).mono fun _ _ => trivial

/-- A text after something that may stand before anything. -/
lemma Written.prepend (h : Written text us) (hbefore : ScansFree before.toList bs)
    (hbs : bs ≠ []) (hne : before ≠ "") : Written (before ++ text) (bs ++ us) where
  scans := by
    rw [String.toList_append]
    exact hbefore.append h.scans
  empty := by simp [hbs, hne]

/-- Two texts, the second one of which begins with a character that ends tokens. -/
lemma Written.append {text' : String} {us' : List Token} (h : Written text us)
    (h' : Written text' us') (hstop : ∀ c, text'.toList.head? = some c → isStop c = true) :
    Written (text ++ text') (us ++ us') where
  scans := by
    rw [String.toList_append]
    cases htext' : text'.toList with
    | nil =>
        have hus' : us' = [] := h'.empty.mp (String.toList_eq_nil_iff.mp htext')
        simpa [hus'] using h.scans
    | cons c cs => exact h.scans.append (htext' ▸ h'.scans) (hstop c (by rw [htext']; rfl))
  empty := by rw [String.append_eq_empty_iff, List.append_eq_nil_iff, h.empty, h'.empty]

end Written

end Token

/-! ### Values, arguments and directives -/

open Layout
open Token (Written ScansFree scansFree_mark scansFree_blank written_name)

lemma scansFree_colon : ScansFree ": ".toList [.mark ':'] :=
  ScansFree.append (scansFree_mark rfl) scansFree_blank

/-- A name, a colon and a text. -/
lemma written_entry {name text : String} {us : List Token} (hname : Token.IsName name)
    (h : Written text us) : Written (name ++ ": " ++ text) (.name name :: .mark ':' :: us) := by
  rw [String.append_assoc]
  refine (written_name hname).append (h.prepend scansFree_colon (by simp) (by decide))
    fun c hc => ?_
  rw [String.toList_append] at hc
  cases hc
  rfl

/-- A mark by itself. -/
lemma written_mark {c : Char} {text : String} (hc : Token.isMark c = true)
    (htext : text.toList = [c]) : Written text [.mark c] where
  scans := htext ▸ (scansFree_mark hc).mono fun _ _ => trivial
  empty := by simp [← String.toList_eq_nil_iff, htext]

/-- Texts between commas, in brackets. -/
lemma written_brackets {opening closing : Char} {before after : String} {texts : List String}
    {uss : List (List Token)} (hopening : Token.isMark opening = true)
    (hclosing : Token.isMark closing = true) (hstop : Token.isStop closing = true)
    (hbefore : before.toList = [opening]) (hafter : after.toList = [closing])
    (h : List.Forall₂ Written texts uss) :
    Written (before ++ join ", " texts ++ after)
      (.mark opening :: uss.flatten ++ [.mark closing]) := by
  have hitems : Written (join ", " texts) uss.flatten := .join rfl rfl rfl h
  refine Written.append ?_ (written_mark hclosing hafter) fun c hc => ?_
  · exact hitems.prepend (hbefore ▸ scansFree_mark hopening) (by simp)
      (by simp [← String.toList_eq_nil_iff, hbefore])
  · rw [hafter] at hc
    cases hc
    exact hstop

lemma written_string (value : String) (isBlock : Bool) :
    Written (Description.text ⟨value, isBlock⟩) [.string "" false] := by
  rw [Description.text]
  split
  · refine ⟨Token.scansWhole_block value, ?_⟩
    obtain ⟨before, after, htext, -⟩ := Token.exists_of_blockText value
    simp [← String.toList_eq_nil_iff, htext]
  · exact ⟨Token.scansWhole_quoted value, by simp [← String.toList_eq_nil_iff,
      Description.quotedText]⟩

lemma written_numeral {token : Token} {text : String} (h : Token.IsNumeral token text)
    (htoken : token.blur = token) : Written text [token] where
  scans := Token.scansWhole_numeral h htoken
  empty := by
    obtain ⟨c, cs, htext, -⟩ := h.head
    simp [← String.toList_eq_nil_iff, htext]

mutual
/-- A literal of lexical tokens is scanned as them. -/
lemma Literal.written (x : Literal) (h : Lexical x.tokens) : Written x.text x.tokens := by
  match x with
  | .variable word =>
      rw [Literal.tokens, lexical_cons, lexical_cons] at h
      have hdollar : ScansFree "$".toList [.mark '$'] := scansFree_mark rfl
      exact (written_name h.2.1).prepend hdollar (by simp) (by decide)
  | .int digits => exact written_numeral (lexical_cons.mp h).1 rfl
  | .float digits => exact written_numeral (lexical_cons.mp h).1 rfl
  | .string value isBlock => exact written_string value isBlock
  | .boolean true => exact written_name (by decide)
  | .boolean false => exact written_name (by decide)
  | .null => exact written_name (by decide)
  | .enum word => exact written_name (lexical_cons.mp h).1
  | .list items =>
      rw [Literal.tokens, lexical_append, lexical_cons] at h
      obtain ⟨uss, huss, heq⟩ := literals_written items h.1.2
      rw [Literal.text, Literal.tokens, ← heq]
      exact written_brackets rfl rfl rfl rfl rfl huss
  | .object fields =>
      rw [Literal.tokens, lexical_append, lexical_cons] at h
      obtain ⟨uss, huss, heq⟩ := object_written fields h.1.2
      rw [Literal.text, Literal.tokens, ← heq]
      exact written_brackets rfl rfl rfl rfl rfl huss
lemma literals_written (xs : List Literal) (h : Lexical (literalTokens xs)) :
    ∃ uss, List.Forall₂ Written (literalTexts xs) uss ∧ uss.flatten = literalTokens xs := by
  match xs with
  | [] => exact ⟨[], .nil, rfl⟩
  | x :: xs =>
      rw [literalTokens, lexical_append] at h
      obtain ⟨uss, huss, heq⟩ := literals_written xs h.2
      exact ⟨x.tokens :: uss, .cons (x.written h.1) huss, by
        rw [List.flatten_cons, heq, literalTokens]⟩
lemma object_written (xs : List (String × Literal)) (h : Lexical (objectTokens xs)) :
    ∃ uss, List.Forall₂ Written (fieldTexts xs) uss ∧ uss.flatten = objectTokens xs := by
  match xs with
  | [] => exact ⟨[], .nil, rfl⟩
  | (k, x) :: xs =>
      rw [objectTokens, lexical_append, lexical_cons, lexical_cons] at h
      obtain ⟨⟨hname, -, hx⟩, hxs⟩ := h
      obtain ⟨uss, huss, heq⟩ := object_written xs hxs
      refine ⟨_, .cons (written_entry hname (x.written hx)) huss, ?_⟩
      rw [List.flatten_cons, heq, objectTokens]
end

/-- Texts that are each scanned as its tokens. -/
lemma forall₂_written {α : Type} {text : α → String} {tokens : α → List Token} {xs : List α}
    (h : ∀ x ∈ xs, Written (text x) (tokens x)) :
    List.Forall₂ Written (xs.map text) (xs.map tokens) := by
  rw [List.forall₂_map_left_iff, List.forall₂_map_right_iff, List.forall₂_same]
  exact h

lemma Argument.written {a : Argument} (h : Lexical a.tokens) : Written a.text a.tokens := by
  rw [tokens, lexical_cons, lexical_cons] at h
  exact written_entry h.1 (a.value.written h.2.2)

lemma lexical_argumentTokens {arguments : List Argument} :
    Lexical (argumentTokens arguments) ↔ ∀ a ∈ arguments, Lexical a.tokens :=
  (lexical_wrapped rfl rfl).trans lexical_flatMap

/-- Arguments are scanned alike on one line and on several lines. -/
lemma written_arguments (head : String) {arguments : List Argument}
    (h : Lexical (argumentTokens arguments)) :
    Written (argumentsText head arguments) (argumentTokens arguments) := by
  have hall : List.Forall₂ Written (arguments.map Argument.text) (arguments.map Argument.tokens) :=
    forall₂_written fun a ha => Argument.written (lexical_argumentTokens.mp h a ha)
  rw [argumentsText, argumentTokens, List.flatMap_def]
  split
  · exact Written.lines rfl rfl rfl rfl hall
  · exact Written.between rfl rfl rfl rfl rfl hall

lemma head?_wrap {before text after : String} {c d : Char}
    (hbefore : before.toList.head? = some c) (hd : (wrap before text after).toList.head? = some d) :
    d = c := by
  rw [wrap] at hd
  split at hd
  · cases hd
  · rw [String.toList_append, String.toList_append, List.append_assoc, List.head?_append,
      hbefore] at hd
    exact (Option.some.inj hd).symm

lemma head?_argumentsText {head : String} {arguments : List Argument} {c : Char}
    (hc : (argumentsText head arguments).toList.head? = some c) : c = '(' := by
  rw [argumentsText] at hc
  split at hc
  · exact head?_wrap rfl hc
  · exact head?_wrap rfl hc

lemma Directive.written {d : Directive} (h : Lexical d.tokens) : Written d.text d.tokens := by
  rw [Directive.tokens, lexical_cons, lexical_cons] at h
  obtain ⟨-, hname, harguments⟩ := h
  have hat : ScansFree "@".toList [.mark '@'] := scansFree_mark rfl
  have hall : List.Forall₂ Written (d.arguments.map Argument.text)
      (d.arguments.map Argument.tokens) :=
    forall₂_written fun a ha => Argument.written (lexical_argumentTokens.mp harguments a ha)
  rw [Directive.text, String.append_assoc, Directive.tokens, argumentTokens, List.flatMap_def]
  refine Written.prepend (Written.append (written_name hname)
    (Written.between rfl rfl rfl rfl rfl hall) fun c hc => ?_) hat (by simp) (by decide)
  rw [head?_wrap rfl hc]
  rfl

lemma written_directives {ds : List Directive} (h : Lexical (directiveTokens ds)) :
    Written (directivesText ds) (directiveTokens ds) := by
  rw [directiveTokens, List.flatMap_def]
  refine .join rfl rfl rfl (forall₂_written fun d hd => Directive.written ?_)
  exact lexical_flatMap.mp h d hd

/-! ### Selections -/

/-- A field up to its directives. -/
lemma written_key {alias? : Option String} {name : String} {arguments : List Argument}
    (halias : ∀ key, alias? = some key → Token.IsName key) (hname : Token.IsName name)
    (h : Lexical (argumentTokens arguments)) :
    Written (wrap "" (alias?.getD "") ": " ++ name
        ++ argumentsText (wrap "" (alias?.getD "") ": " ++ name) arguments)
      (alias?.toList.flatMap (fun key => [.name key, .mark ':']) ++
        .name name :: argumentTokens arguments) := by
  have hplain (head : String) : Written (name ++ argumentsText head arguments)
      (.name name :: argumentTokens arguments) := by
    refine (written_name hname).append (written_arguments head h) fun c hc => ?_
    rw [head?_argumentsText hc]
    rfl
  cases alias? with
  | none => simpa [wrap] using hplain name
  | some key =>
      have hkey : key ≠ "" := by
        obtain ⟨c, cs, htext, -⟩ := halias key rfl
        simp [← String.toList_eq_nil_iff, htext]
      have hentry := written_entry (halias key rfl) (hplain (key ++ ": " ++ name))
      simpa [wrap, hkey, String.append_assoc] using hentry

/-- What the head of a field is made of. -/
lemma lexical_headTokens {alias? : Option String} {name : String} {arguments : List Argument}
    {directives : List Directive} : Lexical (headTokens alias? name arguments directives)
      ↔ (∀ key, alias? = some key → Token.IsName key) ∧ Token.IsName name
        ∧ Lexical (argumentTokens arguments) ∧ Lexical (directiveTokens directives) := by
  rw [headTokens, lexical_append, lexical_cons, lexical_append]
  refine and_congr_left' ?_
  cases alias? <;> simp [Token.IsLexical, Token.isMark]

/-- What stands before the selection set of an inline fragment. -/
lemma lexical_inlineTokens {condition? : Option String} {directives : List Directive} :
    Lexical (inlineTokens condition? directives)
      ↔ (∀ condition, condition? = some condition → Token.IsName condition)
        ∧ Lexical (directiveTokens directives) := by
  have hon : Token.IsName "on" := by decide
  rw [inlineTokens, lexical_cons, lexical_append]
  cases condition? <;> simp [Token.IsLexical, hon]

lemma lexical_wrapped_braces {ts : List Token} :
    Lexical (Token.wrapped (.mark '\x7b') ts (.mark '\x7d')) ↔ Lexical ts := lexical_wrapped rfl rfl

/-- Texts with blanks between them. -/
lemma written_words {texts : List String} {uss : List (List Token)}
    (h : List.Forall₂ Written texts uss) : Written (join " " texts) uss.flatten :=
  .join rfl rfl rfl h

lemma written_ellipsis : Written "..." [.ellipsis] where
  scans := Token.scansFree_ellipsis.mono fun _ _ => trivial
  empty := by simp

lemma written_block {texts : List String} {uss : List (List Token)}
    (h : List.Forall₂ Written texts uss) :
    Written (block texts) (Token.wrapped (.mark '\x7b') uss.flatten (.mark '\x7d')) :=
  Written.lines rfl rfl rfl rfl h

/-- A word with a blank after it. -/
lemma scansFree_word {text word : String} (hword : Token.IsName word)
    (htext : text.toList = word.toList ++ [' ']) : ScansFree text.toList [.name word] := by
  rw [htext]
  exact (Token.scansWhole_name hword).append scansFree_blank rfl

/-- The condition of an inline fragment. -/
lemma written_condition {condition? : Option String}
    (h : ∀ condition, condition? = some condition → Token.IsName condition) :
    Written (wrap "on " (condition?.getD ""))
      (condition?.toList.flatMap fun condition => [.name "on", .name condition]) := by
  cases condition? with
  | none => exact Token.written_nil
  | some condition =>
      have hon : ScansFree "on ".toList [.name "on"] :=
        scansFree_word (by decide) rfl
      have hname := h condition rfl
      have hwrap := (written_name hname).wrap hon (.inl ⟨rfl, rfl⟩)
      exact hwrap

mutual
/-- A selection of lexical tokens is scanned as them. -/
lemma Selection.written (s : Selection) (h : Lexical s.tokens) : Written s.text s.tokens := by
  match s with
  | .field alias? name arguments directives none =>
      obtain ⟨halias, hname, harguments, hdirectives⟩ := lexical_headTokens.mp h
      have hwords := written_words (.cons (written_key halias hname harguments)
        (.cons (written_directives hdirectives) .nil))
      simpa [Selection.text, Selection.tokens, headTokens] using hwords
  | .field alias? name arguments directives (some ss) =>
      rw [Selection.tokens, lexical_append, lexical_wrapped_braces, lexical_headTokens] at h
      obtain ⟨⟨halias, hname, harguments, hdirectives⟩, hss⟩ := h
      obtain ⟨uss, huss, heq⟩ := selections_written ss hss
      have hwords := written_words (.cons (written_key halias hname harguments)
        (.cons (written_directives hdirectives) (.cons (written_block huss) .nil)))
      simpa [Selection.text, Selection.tokens, headTokens, heq] using hwords
  | .spread fragment directives =>
      rw [Selection.tokens, lexical_cons, lexical_cons] at h
      have hdots : ScansFree "...".toList [.ellipsis] := Token.scansFree_ellipsis
      have hdirectives : Written (wrap " " (directivesText directives))
          (directiveTokens directives) := (written_directives h.2.2).spaced rfl
      rw [Selection.text, Selection.tokens, String.append_assoc]
      refine Written.prepend (Written.append (written_name h.2.1) hdirectives fun c hc => ?_) hdots
        (by simp) (by decide)
      rw [head?_wrap rfl hc]
      rfl
  | .inline condition? directives ss =>
      rw [Selection.tokens, lexical_append, lexical_wrapped_braces, lexical_inlineTokens] at h
      obtain ⟨⟨hcondition, hdirectives⟩, hss⟩ := h
      obtain ⟨uss, huss, heq⟩ := selections_written ss hss
      have hwords := written_words (.cons written_ellipsis (.cons (written_condition hcondition)
        (.cons (written_directives hdirectives) (.cons (written_block huss) .nil))))
      simpa [Selection.text, Selection.tokens, inlineTokens, heq] using hwords
lemma selections_written (ss : List Selection) (h : Lexical (selectionTokens ss)) :
    ∃ uss, List.Forall₂ Written (selectionTexts ss) uss ∧ uss.flatten = selectionTokens ss := by
  match ss with
  | [] => exact ⟨[], .nil, rfl⟩
  | s :: ss =>
      rw [selectionTokens, lexical_append] at h
      obtain ⟨uss, huss, heq⟩ := selections_written ss h.2
      exact ⟨s.tokens :: uss, .cons (s.written h.1) huss, by
        rw [List.flatten_cons, heq, selectionTokens]⟩
end

/-! ### Fragments -/

lemma lexical_setTokens {ss : List Selection} :
    Lexical (setTokens ss) ↔ ∀ s ∈ ss, Lexical s.tokens := by
  rw [setTokens, lexical_wrapped_braces, selectionTokens_eq_flatMap, lexical_flatMap]

lemma written_set {ss : List Selection} (h : Lexical (setTokens ss)) :
    Written (selectionSetText ss) (setTokens ss) := by
  obtain ⟨uss, huss, heq⟩ := selections_written ss (lexical_wrapped_braces.mp h)
  rw [selectionSetText, setTokens, ← heq]
  exact written_block huss

/-- A fragment of lexical tokens is scanned as them. -/
theorem Fragment.scan?_text {f : Fragment} {tokens : List Token}
    (hdescription : f.description? = none) (hdirectives : f.directives = []) (h : Lexical f.tokens)
    (hscan : Token.scan? f.text = some tokens) :
    tokens.map Token.blur = f.tokens := by
  rw [Fragment.tokens, lexical_cons, lexical_cons, lexical_cons, lexical_cons, lexical_append] at h
  obtain ⟨hfragment, hname, hon, hcondition, -, hset⟩ := h
  refine Token.ScansWhole.of_scan? ?_ hscan
  have hword : ScansFree "fragment ".toList [.name "fragment"] := scansFree_word hfragment rfl
  have hon : ScansFree "on ".toList [.name "on"] := scansFree_word hon rfl
  have hselections := scansFree_blank.append (written_set hset).scans
  have htype := hon.append ((Token.scansWhole_name hcondition).append hselections rfl)
  have hwhole := hword.append
    ((Token.scansWhole_name hname).append (scansFree_blank.append htype) rfl)
  have hnothing : wrap "" (join " " []) " " = "" := rfl
  simpa [Fragment.text, Fragment.tokens, hdescription, hdirectives, directivesText, directiveTokens,
    Description.line, hnothing] using hwhole

end RemoteNodes
