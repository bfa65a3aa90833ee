import RemoteNodes.Proofs.GraphQL.Reading
/-!
Fragments that are read again from their texts.

* `Token.skip`: what comes after the bracket that closes the innermost open one; `Token.Balanced`:
  tokens that close all brackets that they open, as literals and selections do.
* `wrapped_inj`, `directiveTokens_inj`, `fieldTokens_inj`: where a field ends, by its tokens.
* `mem_of_selectionTokens_eq`: selections of the same tokens have the same plain leaves.
* `Fragment.exists_of_parse?_text`: **the text of a fragment that selects fields is read as one
  fragment with its name, its type and its plain leaves**.
-/

namespace RemoteNodes

namespace Token

/-! ### Brackets -/

/-- The marks that open a group. -/
def opens (t : Token) : Bool := t = .mark '(' || t = .mark '[' || t = .mark '\x7b'

/-- The marks that close one. -/
def closes (t : Token) : Bool := t = .mark ')' || t = .mark ']' || t = .mark '\x7d'

/-- What comes after as many open brackets have been closed. -/
def skip : (depth : Nat) → List Token → List Token
  | 0, ts => ts
  | _ + 1, [] => []
  | depth + 1, t :: ts =>
    if t.opens then skip (depth + 2) ts
    else if t.closes then skip depth ts
    else skip (depth + 1) ts

/-- Tokens that close all brackets that they open, and no others. -/
def Balanced (ts : List Token) : Prop :=
  ∀ depth rest, skip (depth + 1) (ts ++ rest) = skip (depth + 1) rest

variable {t opening closing : Token} {ts us rest rest' : List Token}

@[simp] lemma balanced_nil : Balanced [] := fun _ _ => rfl

lemma Balanced.append (hts : Balanced ts) (hus : Balanced us) : Balanced (ts ++ us) :=
  fun depth rest => by rw [List.append_assoc, hts, hus]

lemma Balanced.cons (hopens : t.opens = false) (hcloses : t.closes = false) (h : Balanced ts) :
    Balanced (t :: ts) := fun depth rest => by
  rw [List.cons_append, skip, if_neg (by simp [hopens]), if_neg (by simp [hcloses]), h]

lemma Balanced.group (hopens : opening.opens = true) (hopens' : closing.opens = false)
    (hcloses : closing.closes = true) (h : Balanced ts) :
    Balanced (opening :: ts ++ [closing]) := fun depth rest => by
  rw [List.cons_append, List.cons_append, List.append_assoc, skip, if_pos hopens, h,
    List.singleton_append, skip, if_neg (by simp [hopens']), if_pos hcloses]

lemma Balanced.wrapped (hopens : opening.opens = true) (hopens' : closing.opens = false)
    (hcloses : closing.closes = true) (h : Balanced ts) :
    Balanced (wrapped opening ts closing) := by
  rw [Token.wrapped]
  split
  · exact balanced_nil
  · exact h.group hopens hopens' hcloses

lemma balanced_flatMap {α : Type} {f : α → List Token} {xs : List α}
    (h : ∀ x ∈ xs, Balanced (f x)) : Balanced (xs.flatMap f) := by
  induction xs with
  | nil => exact balanced_nil
  | cons x xs ih =>
      rw [List.flatMap_cons]
      exact (h x List.mem_cons_self).append (ih fun y hy => h y (List.mem_cons_of_mem _ hy))

/-- Where balanced tokens in brackets end, by what is in front of it. -/
lemma append_closing_inj (hopens : closing.opens = false) (hcloses : closing.closes = true)
    (hts : Balanced ts) (hus : Balanced us)
    (h : ts ++ closing :: rest = us ++ closing :: rest') : ts = us ∧ rest = rest' := by
  have hskip (rest : List Token) : skip 1 (closing :: rest) = rest := by
    rw [skip, if_neg (by simp [hopens]), if_pos hcloses, skip]
  have hrest : rest = rest' := by
    have hboth := congrArg (skip 1) h
    rwa [hts, hus, hskip, hskip] at hboth
  subst hrest
  exact ⟨List.append_cancel_right h, rfl⟩

/-- Where balanced tokens in brackets end, if there are any, by what follows. -/
lemma wrapped_inj (hopens : closing.opens = false) (hcloses : closing.closes = true)
    (hts : Balanced ts) (hus : Balanced us) (hrest : rest.head? ≠ some opening)
    (hrest' : rest'.head? ≠ some opening)
    (h : wrapped opening ts closing ++ rest = wrapped opening us closing ++ rest') :
    ts = us ∧ rest = rest' := by
  rw [wrapped, wrapped] at h
  split at h
  · rename_i hnil
    split at h
    · rename_i hnil'
      exact ⟨hnil.trans hnil'.symm, h⟩
    · exact absurd (by rw [show rest = _ from h]; rfl) hrest
  · split at h
    · exact absurd (by rw [← show _ = rest' from h]; rfl) hrest'
    · rw [List.append_assoc, List.append_assoc] at h
      exact append_closing_inj hopens hcloses hts hus (List.cons.inj h).2

end Token

open Token (Balanced)

mutual
lemma Literal.balanced (x : Literal) : Balanced x.tokens := by
  match x with
  | .variable _ => exact .cons rfl rfl (.cons rfl rfl Token.balanced_nil)
  | .int _ | .float _ | .string _ _ | .boolean true | .boolean false | .null | .enum _ =>
      exact .cons rfl rfl Token.balanced_nil
  | .list items =>
      rw [Literal.tokens]
      exact (literals_balanced items).group rfl rfl rfl
  | .object fields =>
      rw [Literal.tokens]
      exact (object_balanced fields).group rfl rfl rfl
lemma literals_balanced (xs : List Literal) : Balanced (literalTokens xs) := by
  match xs with
  | [] => exact Token.balanced_nil
  | x :: xs => exact x.balanced.append (literals_balanced xs)
lemma object_balanced (xs : List (String × Literal)) : Balanced (objectTokens xs) := by
  match xs with
  | [] => exact Token.balanced_nil
  | (k, x) :: xs => exact .append (.cons rfl rfl (.cons rfl rfl x.balanced)) (object_balanced xs)
end

lemma balanced_arguments (as : List Argument) : Balanced (as.flatMap Argument.tokens) :=
  Token.balanced_flatMap fun a _ => .cons rfl rfl (.cons rfl rfl a.value.balanced)

lemma balanced_directiveTokens (ds : List Directive) : Balanced (directiveTokens ds) :=
  Token.balanced_flatMap fun d _ => .cons rfl rfl (.cons rfl rfl
    ((balanced_arguments d.arguments).wrapped rfl rfl rfl))

lemma balanced_headTokens (alias? : Option String) (name : String) (as : List Argument)
    (ds : List Directive) : Balanced (headTokens alias? name as ds) := by
  have harguments : Token.Balanced (argumentTokens as) :=
    (balanced_arguments as).wrapped rfl rfl rfl
  refine .append (Token.balanced_flatMap fun key _ => ?_)
    (.cons rfl rfl (harguments.append (balanced_directiveTokens ds)))
  exact .cons rfl rfl (.cons rfl rfl Token.balanced_nil)

lemma balanced_inlineTokens (condition? : Option String) (ds : List Directive) :
    Balanced (inlineTokens condition? ds) := by
  refine .cons rfl rfl
    (.append (Token.balanced_flatMap fun _ _ => ?_) (balanced_directiveTokens ds))
  exact .cons rfl rfl (.cons rfl rfl Token.balanced_nil)

mutual
lemma Selection.balanced (s : Selection) : Balanced s.tokens := by
  match s with
  | .field alias? name as ds none =>
      rw [Selection.tokens]
      exact balanced_headTokens alias? name as ds
  | .field alias? name as ds (some ss) =>
      rw [Selection.tokens]
      exact (balanced_headTokens alias? name as ds).append
        ((selections_balanced ss).wrapped rfl rfl rfl)
  | .spread fragment ds => exact .cons rfl rfl (.cons rfl rfl (balanced_directiveTokens ds))
  | .inline condition? ds ss =>
      rw [Selection.tokens]
      exact (balanced_inlineTokens condition? ds).append
        ((selections_balanced ss).wrapped rfl rfl rfl)
lemma selections_balanced (ss : List Selection) : Balanced (selectionTokens ss) := by
  match ss with
  | [] => exact Token.balanced_nil
  | s :: ss => exact s.balanced.append (selections_balanced ss)
end

/-! ### Where fields end -/

/-- What comes after a field: no mark that a field goes on with. -/
def EndsField (rest : List Token) : Prop :=
  ∀ t, rest.head? = some t → t ≠ .mark '(' ∧ t ≠ .mark '@' ∧ t ≠ .mark '\x7b' ∧ t ≠ .mark ':'

section Fields

variable {rest rest' : List Token} {ss ss' : List Selection} {as as' : List Argument}
  {ds ds' : List Directive} {ss? ss?' : Option (List Selection)} {alias? alias?' : Option String}
  {name name' : String}

lemma argumentTokens_inj (hrest : rest.head? ≠ some (.mark '('))
    (hrest' : rest'.head? ≠ some (.mark '('))
    (h : argumentTokens as ++ rest = argumentTokens as' ++ rest') :
    (as = [] ↔ as' = []) ∧ rest = rest' := by
  obtain ⟨htokens, hrest⟩ := Token.wrapped_inj rfl rfl (balanced_arguments as)
    (balanced_arguments as') hrest hrest' h
  have hnil (as : List Argument) : as.flatMap Argument.tokens = [] ↔ as = [] := by
    cases as <;> simp [Argument.tokens]
  exact ⟨by rw [← hnil as, ← hnil as', htokens], hrest⟩

lemma head?_wrapped_append {t opening closing : Token} {ts : List Token} (ht : t ≠ opening)
    (hrest : rest.head? ≠ some t) : (Token.wrapped opening ts closing ++ rest).head? ≠ some t := by
  rw [Token.wrapped]
  split
  · exact hrest
  · exact fun h => ht (Option.some.inj h).symm

lemma head?_directiveTokens_append {t : Token} (ht : t ≠ .mark '@') (hrest : rest.head? ≠ some t) :
    (directiveTokens ds ++ rest).head? ≠ some t := by
  cases ds with
  | nil => exact hrest
  | cons d ds => exact fun h => ht (Option.some.inj h).symm

lemma directiveTokens_cons (d : Directive) :
    directiveTokens (d :: ds) ++ rest = .mark '@' :: .name d.name ::
      (argumentTokens d.arguments ++ (directiveTokens ds ++ rest)) := by
  simp [directiveTokens, Directive.tokens]

lemma directiveTokens_inj
    (hrest : rest.head? ≠ some (.mark '(') ∧ rest.head? ≠ some (.mark '@'))
    (hrest' : rest'.head? ≠ some (.mark '(') ∧ rest'.head? ≠ some (.mark '@'))
    (h : directiveTokens ds ++ rest = directiveTokens ds' ++ rest') :
    (ds = [] ↔ ds' = []) ∧ rest = rest' := by
  induction ds generalizing ds' with
  | nil =>
      cases ds' with
      | nil => exact ⟨Iff.rfl, h⟩
      | cons d' ds' =>
          rw [directiveTokens_cons] at h
          exact absurd (congrArg List.head? h) hrest.2
  | cons d ds ih =>
      cases ds' with
      | nil =>
          rw [directiveTokens_cons] at h
          exact absurd (congrArg List.head? h).symm hrest'.2
      | cons d' ds' =>
          rw [directiveTokens_cons, directiveTokens_cons] at h
          obtain ⟨-, hmore⟩ := argumentTokens_inj
            (head?_directiveTokens_append (by decide) hrest.1)
            (head?_directiveTokens_append (by decide) hrest'.1)
            (List.cons.inj (List.cons.inj h).2).2
          exact ⟨by simp, (ih hmore).2⟩

/-- The tokens of a field are those of its head and of its selection set. -/
lemma tokens_field : (Selection.field alias? name as ds ss?).tokens
    = headTokens alias? name as ds ++ setTokens (ss?.getD []) := by
  cases ss? with
  | none => simp [Selection.tokens, setTokens, selectionTokens, Token.wrapped]
  | some ss => rw [Selection.tokens, setTokens, Option.getD_some]

/-- Where a field ends after its name, by its tokens. -/
lemma bodyTokens_inj (hrest : EndsField rest) (hrest' : EndsField rest')
    (h : argumentTokens as ++ (directiveTokens ds ++ (setTokens ss ++ rest))
      = argumentTokens as' ++ (directiveTokens ds' ++ (setTokens ss' ++ rest'))) :
    (as = [] ↔ as' = []) ∧ (ds = [] ↔ ds' = []) ∧ selectionTokens ss = selectionTokens ss'
      ∧ rest = rest' := by
  have hset {rest : List Token} (hrest : EndsField rest) (ss : List Selection) :
      (setTokens ss ++ rest).head? ≠ some (.mark '(')
        ∧ (setTokens ss ++ rest).head? ≠ some (.mark '@') :=
    ⟨head?_wrapped_append (by decide) fun hhead => (hrest _ hhead).1 rfl,
      head?_wrapped_append (by decide) fun hhead => (hrest _ hhead).2.1 rfl⟩
  obtain ⟨harguments, h⟩ := argumentTokens_inj
    (head?_directiveTokens_append (by decide) (hset hrest ss).1)
    (head?_directiveTokens_append (by decide) (hset hrest' ss').1) h
  obtain ⟨hdirectives, h⟩ := directiveTokens_inj (hset hrest ss) (hset hrest' ss') h
  obtain ⟨hselections, h⟩ := Token.wrapped_inj rfl rfl (selections_balanced ss)
    (selections_balanced ss') (fun hhead => (hrest _ hhead).2.2.1 rfl)
    (fun hhead => (hrest' _ hhead).2.2.1 rfl) h
  exact ⟨harguments, hdirectives, hselections, h⟩

/-- Where a field ends, by its tokens: its parts are there alike. -/
lemma fieldTokens_inj (hrest : EndsField rest) (hrest' : EndsField rest')
    (h : (Selection.field alias? name as ds ss?).tokens ++ rest
      = (Selection.field alias?' name' as' ds' ss?').tokens ++ rest') :
    alias? = alias?' ∧ name = name' ∧ (as = [] ↔ as' = []) ∧ (ds = [] ↔ ds' = [])
      ∧ selectionTokens (ss?.getD []) = selectionTokens (ss?'.getD []) ∧ rest = rest' := by
  have hcolon {rest : List Token} (hrest : EndsField rest) (as : List Argument)
      (ds : List Directive) (ss : List Selection) :
      (argumentTokens as ++ (directiveTokens ds ++ (setTokens ss ++ rest))).head?
        ≠ some (.mark ':') :=
    head?_wrapped_append (by decide) (head?_directiveTokens_append (by decide)
      (head?_wrapped_append (by decide) fun hhead => (hrest _ hhead).2.2.2 rfl))
  simp only [tokens_field, headTokens, List.append_assoc, List.cons_append] at h
  cases alias? with
  | none =>
      cases alias?' with
      | none =>
          obtain ⟨hname, h⟩ := List.cons.inj h
          exact ⟨rfl, Token.name.inj hname, bodyTokens_inj hrest hrest' h⟩
      | some key => exact absurd (congrArg List.head? (List.cons.inj h).2) (hcolon hrest as ds _)
  | some key =>
      cases alias?' with
      | none =>
          exact absurd (congrArg List.head? (List.cons.inj h).2).symm (hcolon hrest' as' ds' _)
      | some key' =>
          obtain ⟨hkey, h⟩ := List.cons.inj h
          obtain ⟨hname, h⟩ := List.cons.inj (List.cons.inj h).2
          rw [Token.name.inj hkey]
          exact ⟨rfl, Token.name.inj hname, bodyTokens_inj hrest hrest' h⟩

lemma endsField_selectionTokens (ss : List Selection) : EndsField (selectionTokens ss) := by
  cases ss with
  | nil => exact nofun
  | cons s ss =>
      have hhead : ∀ t, s.tokens.head? = some t → (∃ word, t = .name word) ∨ t = .ellipsis := by
        intro t ht
        cases s with
        | field alias? name as ds ss? =>
            rw [tokens_field, headTokens] at ht
            cases alias? <;> exact .inl ⟨_, (Option.some.inj ht).symm⟩
        | spread fragment ds => exact .inr (Option.some.inj ht).symm
        | inline condition? ds ss =>
            rw [Selection.tokens] at ht
            exact .inr (Option.some.inj ht).symm
      intro t ht
      rw [selectionTokens, List.head?_append_of_ne_nil _ (Reader.tokens_ne_nil s)] at ht
      rcases hhead t ht with ⟨word, rfl⟩ | rfl
      · exact ⟨nofun, nofun, nofun, nofun⟩
      · exact ⟨nofun, nofun, nofun, nofun⟩

lemma selectionTokens_eq_nil_iff : selectionTokens ss = [] ↔ ss = [] := by
  cases ss with
  | nil => simp [selectionTokens]
  | cons s ss => simp [selectionTokens, Reader.tokens_ne_nil]

/-- Fields of the same tokens as other selections are there with the same keys and names, and leaves
have no selections there. -/
lemma mem_of_selectionTokens_eq (hss : ∀ s ∈ ss, s.isField = true)
    (h : selectionTokens ss = selectionTokens ss') (hmem : .field alias? name [] [] none ∈ ss) :
    ∃ ss?, .field alias? name [] [] ss? ∈ ss' ∧ ss?.getD [] = [] := by
  induction ss generalizing ss' with
  | nil => cases hmem
  | cons s ss ih =>
      obtain ⟨hs, hmore⟩ := List.forall_mem_cons.mp hss
      cases s with
      | spread _ _ | inline _ _ _ => cases hs
      | field alias₁ name₁ as₁ ds₁ ss?₁ =>
      cases ss' with
      | nil => exact absurd (selectionTokens_eq_nil_iff.mp h) (by simp)
      | cons s' ss' =>
      rw [selectionTokens, selectionTokens] at h
      cases s' with
      | spread fragment ds =>
          rw [tokens_field, headTokens] at h
          cases alias₁ <;> cases (List.cons.inj h).1
      | inline condition? ds inner =>
          rw [tokens_field, headTokens, Selection.tokens] at h
          cases alias₁ <;> cases (List.cons.inj h).1
      | field alias₂ name₂ as₂ ds₂ ss?₂ =>
          obtain ⟨rfl, rfl, has, hds, hselections, hrest⟩ :=
            fieldTokens_inj (endsField_selectionTokens ss) (endsField_selectionTokens ss') h
          rcases List.mem_cons.mp hmem with heq | hmem
          · cases heq
            obtain rfl := has.mp rfl
            obtain rfl := hds.mp rfl
            exact ⟨ss?₂, List.mem_cons_self, selectionTokens_eq_nil_iff.mp hselections.symm⟩
          · obtain ⟨ss?, hmem, hnone⟩ := ih hmore hrest hmem
            exact ⟨ss?, List.mem_cons_of_mem _ hmem, hnone⟩

end Fields

/-! ### Fragments -/

lemma setTokens_of_ne_nil {ss : List Selection} (h : ss ≠ []) :
    setTokens ss = .mark '\x7b' :: (selectionTokens ss ++ [.mark '\x7d']) := by
  rw [setTokens, Token.wrapped, if_neg (fun hnil => h (selectionTokens_eq_nil_iff.mp hnil))]
  rfl

/-- A selection set that stands where directives may come, and where another one ends. -/
lemma selectionTokens_eq_of_setTokens {ss ss' : List Selection} {ds : List Directive}
    {rest : List Token} (hss' : ss' ≠ [])
    (h : setTokens ss = directiveTokens ds ++ (setTokens ss' ++ rest)) :
    selectionTokens ss = selectionTokens ss' ∧ rest = [] := by
  have hhead (ss : List Selection) (rest : List Token) (hss : ss ≠ []) :
      (setTokens ss ++ rest).head? ≠ some (.mark '(')
        ∧ (setTokens ss ++ rest).head? ≠ some (.mark '@') := by
    rw [setTokens_of_ne_nil hss]
    simp
  have hss : ss ≠ [] := by
    rintro rfl
    have hlength := congrArg List.length h
    rw [setTokens_of_ne_nil hss'] at hlength
    simp [setTokens, selectionTokens, Token.wrapped] at hlength
  have hdirectives : directiveTokens [] ++ (setTokens ss ++ [])
      = directiveTokens ds ++ (setTokens ss' ++ rest) := by
    rw [← h, List.append_nil]
    rfl
  obtain ⟨-, hset⟩ := directiveTokens_inj (hhead ss [] hss) (hhead ss' rest hss') hdirectives
  rw [setTokens_of_ne_nil hss, setTokens_of_ne_nil hss', List.cons_append, List.cons_append,
    List.append_assoc, List.append_assoc] at hset
  obtain ⟨hselections, hrest⟩ := Token.append_closing_inj rfl rfl (selections_balanced ss)
    (selections_balanced ss') (List.cons.inj hset).2
  exact ⟨hselections, hrest.symm⟩

/-- A name is the same without values of strings. -/
lemma Token.exists_of_blur_name {tokens us : List Token} {word : String}
    (h : tokens.map blur = .name word :: us) : ∃ ts, tokens = .name word :: ts := by
  cases tokens with
  | nil => cases h
  | cons t ts =>
      have ht := (List.cons.inj h).1
      cases t with
      | name word' => exact ⟨ts, congrArg (· :: ts) ht⟩
      | _ => cases ht

/-- The text of a fragment that selects fields is read as one fragment with its name, its type and
its plain leaves. -/
theorem Fragment.exists_of_parse?_text {f : Fragment} {document : Document}
    (hdescription : f.description? = none) (hdirectives : f.directives = [])
    (hlexical : Lexical f.tokens) (hfields : ∀ s ∈ f.selections, s.isField = true)
    (h : Document.parse? f.text = some document) :
    ∃ g, document = [.fragment g] ∧ g.name = f.name ∧ g.condition = f.condition
      ∧ ∀ alias? name, .field alias? name [] [] none ∈ f.selections →
        .field alias? name [] [] none ∈ g.selections := by
  obtain ⟨tokens, hscan, h⟩ := Option.bind_eq_some_iff.mp h
  obtain ⟨⟨definitions, rest⟩, hrun, h⟩ := Option.bind_eq_some_iff.mp h
  cases h
  have htokens := Fragment.scan?_text hdescription hdirectives hlexical hscan
  obtain ⟨ts, rfl⟩ := Token.exists_of_blur_name htokens
  obtain ⟨g, between, hrun, hdocument⟩ := Reader.exists_of_fragment hrun
  obtain ⟨used, hused, rfl⟩ := Reader.writes_fragment _ _ _ _ _ hrun
  have hfilled := Reader.yields_fragment _ _ _ _ _ hrun
  rw [htokens] at hused
  simp only [Fragment.tokens, hdirectives, List.cons_append, List.append_assoc, List.cons.injEq,
    Token.name.injEq, true_and] at hused
  obtain ⟨hname, hcondition, hset⟩ := hused
  obtain ⟨hselections, hbetween⟩ := selectionTokens_eq_of_setTokens hfilled.1 hset
  refine ⟨g, hdocument (List.map_eq_nil_iff.mp hbetween), hname.symm, hcondition.symm, ?_⟩
  intro alias? name hmem
  obtain ⟨ss?, hmem, hnone⟩ := mem_of_selectionTokens_eq hfields hselections hmem
  cases ss? with
  | none => exact hmem
  | some ss =>
      -- selection sets that are read are not empty
      have hobeys := Selection.obeys_field.mp (hfilled.2 _ hmem)
      exact absurd hnone hobeys.1

end RemoteNodes
