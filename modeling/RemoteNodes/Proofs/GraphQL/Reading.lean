import RemoteNodes.Proofs.GraphQL.Parser
import RemoteNodes.Proofs.GraphQL.Written
/-!
The tokens that are read are those of what is read.

* `Reader.Reads`: a reader whose result has a property together with the tokens that it consumes;
  `Reader.Writes`: the tokens are those of the result; `Reads.bind`, `Writes.bind`: readers put
  together.
* `Reader.writes_literal`, `Reader.writes_selectionSet`, `Reader.writes_fragment`: **literals,
  selections and fragments have the tokens that they are read from**.
* `Document.lexical_of_parse?`: **the fragments of a text are made of lexical tokens**.
* `Document.exists_of_parse?_fragment`: a text with the tokens of a fragment holds a fragment of
  these tokens and nothing else.
-/

namespace RemoteNodes

namespace Reader

open Token (blur wrapped)

variable {α β : Type} {P : List Token → β → Prop} {Q R : List Token → α → Prop} {f : β → List Token}

/-- A reader whose result has a property together with the tokens that it consumes. -/
def Reads (Q : List Token → α → Prop) (reader : Reader α) : Prop :=
  ∀ ts a rest, reader.run ts = some (a, rest) →
    ∃ used, ts.map blur = used ++ rest.map blur ∧ Q used a

/-- A reader that consumes the tokens of its result. -/
abbrev Writes (tokens : α → List Token) (reader : Reader α) : Prop :=
  Reads (fun used a => used = tokens a) reader

/-- A reader that consumes tokens from the front. -/
abbrev Consumes (reader : Reader α) : Prop := Reads (fun _ _ => True) reader

lemma Reads.mono {reader : Reader α} (h : Reads Q reader) (hQ : ∀ used a, Q used a → R used a) :
    Reads R reader := by
  intro ts a rest hrun
  obtain ⟨used, hused, ha⟩ := h ts a rest hrun
  exact ⟨used, hused, hQ used a ha⟩

lemma Reads.consumes {reader : Reader α} (h : Reads Q reader) : Consumes reader :=
  h.mono fun _ _ _ => trivial

lemma Reads.pure {a : α} (h : Q [] a) : Reads Q (pure a : Reader α) := by
  intro ts a' rest hrun
  cases hrun
  exact ⟨[], rfl, h⟩

lemma reads_failure : Reads Q (failure : Reader α) := by
  intro ts a rest hrun
  cases hrun

lemma reads_failure_bind {next : β → Reader α} : Reads Q (failure >>= next) := by
  intro ts a rest hrun
  cases hrun

lemma Reads.bind {reader : Reader β} {next : β → Reader α} (hreader : Reads P reader)
    (hnext : ∀ b, Reads (fun used a => ∀ before, P before b → Q (before ++ used) a) (next b)) :
    Reads Q (reader >>= next) := by
  intro ts a rest hrun
  obtain ⟨⟨b, between⟩, hb, ha⟩ := Option.bind_eq_some_iff.mp hrun
  obtain ⟨before, hbefore, hb⟩ := hreader ts b between hb
  obtain ⟨used, hused, ha⟩ := hnext b between a rest ha
  exact ⟨before ++ used, by rw [hbefore, hused, List.append_assoc], ha before hb⟩

/-- A reader after one whose tokens are known. -/
lemma Writes.bind {reader : Reader β} {next : β → Reader α} (hreader : Writes f reader)
    (hnext : ∀ b, Reads (fun used a => Q (f b ++ used) a) (next b)) : Reads Q (reader >>= next) :=
  Reads.bind hreader fun b => (hnext b).mono fun _ _ h _ hbefore => hbefore ▸ h

/-- A reader after one whose tokens do not count. -/
lemma Consumes.bind {reader : Reader β} {next : β → Reader α} (hreader : Consumes reader)
    (hnext : ∀ b, Consumes (next b)) : Consumes (reader >>= next) :=
  Reads.bind hreader fun b => (hnext b).mono fun _ _ _ _ _ => trivial

/-! ### Single tokens -/

lemma writes_next : Writes (fun token => [blur token]) next := by
  intro ts a rest hrun
  cases ts with
  | nil => cases hrun
  | cons t ts =>
      cases hrun
      exact ⟨[blur a], rfl, rfl⟩

lemma writes_peek? : Writes (fun _ => []) peek? := by
  intro ts a rest hrun
  cases hrun
  exact ⟨[], rfl, rfl⟩

lemma writes_get : Writes (fun _ => []) (get : Reader (List Token)) := by
  intro ts a rest hrun
  cases hrun
  exact ⟨[], rfl, rfl⟩

lemma writes_expect (token : Token) : Writes (fun _ => [blur token]) (expect token) := by
  rw [expect]
  refine writes_next.bind fun t => ?_
  split
  · exact reads_failure
  · rename_i heq
    have ht : t = token := by simpa using heq
    exact .pure (by rw [ht, List.append_nil])

lemma writes_take (token : Token) :
    Writes (fun taken => if taken then [blur token] else []) (take token) := by
  intro ts a rest hrun
  cases ts with
  | nil =>
      cases hrun
      exact ⟨[], rfl, rfl⟩
  | cons t ts =>
      by_cases ht : t = token
      · subst ht
        have hrun : some (true, ts) = some (a, rest) := by simpa [take] using hrun
        cases hrun
        exact ⟨[blur t], rfl, rfl⟩
      · have hrun : some (false, t :: ts) = some (a, rest) := by simpa [take, ht] using hrun
        cases hrun
        exact ⟨[], rfl, rfl⟩

lemma writes_name : Writes (fun text => [.name text]) name := by
  rw [name]
  refine writes_next.bind fun t => ?_
  split
  · exact .pure rfl
  · exact reads_failure

/-- A name that is seen before it is read. -/
lemma reads_peekName {k : String → Reader α} {e : Reader α}
    (hk : ∀ text, Reads (fun used a => R (.name text :: used) a) (k text)) (he : Reads R e) :
    Reads R (do
      match ← peek? with
      | some (.name text) => let _ ← next; k text
      | _ => e) := by
  intro ts a rest hrun
  cases ts with
  | nil => exact he [] a rest hrun
  | cons t ts =>
      cases t with
      | name text =>
          obtain ⟨used, hused, ha⟩ := hk text ts a rest hrun
          exact ⟨.name text :: used, congrArg (Token.name text :: ·) hused, ha⟩
      | _ => exact he _ a rest hrun

/-! ### Repeated parts -/

variable {item : Reader α} {tokens : α → List Token}

lemma writes_upTo (hitem : Writes tokens item) (close : Token) (fuel : Nat) :
    Writes (fun items => items.flatMap tokens ++ [blur close]) (upTo close item fuel) := by
  induction fuel with
  | zero => exact reads_failure
  | succ fuel ih =>
      rw [upTo]
      refine (writes_take close).bind fun closed => ?_
      split
      · exact .pure rfl
      · exact hitem.bind fun first => ih.bind fun rest => .pure (by simp)

lemma writes_many (hitem : Writes tokens item) (hne : ∀ a, tokens a ≠ []) (opening closing : Token)
    (fuel : Nat) :
    Writes (fun items => wrapped (blur opening) (items.flatMap tokens) (blur closing))
      (many opening closing fuel item) := by
  rw [many]
  refine (writes_expect opening).bind fun _ => hitem.bind fun first => ?_
  refine (writes_upTo hitem closing fuel).bind fun rest => .pure ?_
  simp [wrapped, hne]

lemma writes_optionalMany (hitem : Writes tokens item) (hne : ∀ a, tokens a ≠ [])
    (opening closing : Token) (fuel : Nat) :
    Writes (fun items => wrapped (blur opening) (items.flatMap tokens) (blur closing))
      (optionalMany opening closing fuel item) := by
  rw [optionalMany]
  refine writes_peek?.bind fun token => ?_
  split
  · exact writes_many hitem hne opening closing fuel
  · exact .pure rfl

/-! ### Values, arguments and directives -/

lemma writes_literalOver (isConstant : Bool) (fuel : Nat) {inner? : Option (Reader Literal)}
    (hinner : ∀ inner, inner? = some inner → Writes Literal.tokens inner) :
    Writes Literal.tokens (literalOver isConstant fuel inner?) := by
  unfold literalOver
  refine writes_next.bind fun token => ?_
  split
  · exact .pure rfl
  · exact .pure rfl
  · exact .pure rfl
  · exact .pure rfl
  · exact .pure rfl
  · exact .pure rfl
  · exact .pure rfl
  · split
    · exact reads_failure
    · exact writes_name.bind fun word => .pure rfl
  · split
    · exact reads_failure
    · refine (writes_upTo (hinner _ rfl) _ fuel).bind fun items => .pure ?_
      simp [Literal.tokens, literalTokens_eq_flatMap, blur]
  · split
    · exact reads_failure
    · rename_i inner
      have hentry : Writes (fun p : String × Literal => .name p.1 :: .mark ':' :: p.2.tokens) (do
          let key ← name
          expect (.mark ':')
          return (key, ← inner)) :=
        writes_name.bind fun key => (writes_expect _).bind fun _ =>
          (hinner inner rfl).bind fun value => .pure (by simp [blur])
      refine (writes_upTo hentry _ fuel).bind fun fields => .pure ?_
      simp [Literal.tokens, objectTokens_eq_flatMap, blur, closeBrace]
  · exact reads_failure

/-- A literal has the tokens that it is read from. -/
lemma writes_literal (isConstant : Bool) (fuel room : Nat) :
    Writes Literal.tokens (literal isConstant fuel room) := by
  induction room with
  | zero =>
      rw [literal]
      exact writes_literalOver isConstant fuel nofun
  | succ room ih =>
      rw [literal]
      exact writes_literalOver isConstant fuel fun inner h => Option.some.inj h ▸ ih

lemma writes_argument (isConstant : Bool) (fuel room : Nat) :
    Writes Argument.tokens (argument isConstant fuel room) :=
  writes_name.bind fun key => (writes_expect _).bind fun _ =>
    (writes_literal isConstant fuel room).bind fun value => .pure (by simp [blur, Argument.tokens])

lemma writes_arguments (isConstant : Bool) (fuel room : Nat) :
    Writes argumentTokens (arguments isConstant fuel room) :=
  writes_optionalMany (writes_argument isConstant fuel room) (fun _ => by simp [Argument.tokens])
    openParen closeParen fuel

lemma writes_directivesWithin (isConstant : Bool) (whole room fuel : Nat) :
    Writes directiveTokens (directivesWithin isConstant whole room fuel) := by
  induction fuel with
  | zero => exact reads_failure
  | succ fuel ih =>
      rw [directivesWithin]
      refine (writes_take _).bind fun taken => ?_
      split
      · refine writes_name.bind fun word =>
          (writes_arguments isConstant whole room).bind fun as => ?_
        exact ih.bind fun rest => .pure (by simp [directiveTokens, Directive.tokens, blur])
      · exact .pure rfl

lemma writes_directives (fuel room : Nat) : Writes directiveTokens (directives fuel room) :=
  writes_directivesWithin false fuel room fuel

/-! ### Selections -/

lemma tokens_ne_nil (s : Selection) : s.tokens ≠ [] := by
  cases s with
  | field alias? name arguments directives selections? =>
      cases selections? <;> simp [Selection.tokens, headTokens]
  | spread fragment directives => simp [Selection.tokens]
  | inline condition? directives ss => simp [Selection.tokens, inlineTokens]

/-- The alias of a field, if there is one, and its name. -/
lemma writes_key : Writes
    (fun key : Option String × String =>
      key.1.toList.flatMap (fun key => [.name key, .mark ':']) ++ [.name key.2])
    (do
      let first ← name
      if ← take (.mark ':') then return (some first, ← name) else return (none, first)) := by
  refine writes_name.bind fun first => (writes_take _).bind fun aliased => ?_
  split
  · exact writes_name.bind fun word => .pure rfl
  · exact .pure rfl

lemma writes_selectionOver (fuel room : Nat) {set : Reader (List Selection)}
    (hset : Writes setTokens set) : Writes Selection.tokens (selectionOver fuel room set) := by
  rw [selectionOver]
  refine (writes_take _).bind fun dots => ?_
  split
  · refine (writes_take _).bind fun on => ?_
    split
    · refine writes_name.bind fun condition => (writes_directives fuel room).bind fun ds => ?_
      refine hset.bind fun ss => .pure ?_
      simp [Selection.tokens, inlineTokens, setTokens, blur]
    · refine reads_peekName (fun fragment => ?_) ?_
      · exact (writes_directives fuel room).bind fun ds => .pure (by simp [Selection.tokens, blur])
      · refine (writes_directives fuel room).bind fun ds => hset.bind fun ss => .pure ?_
        simp [Selection.tokens, inlineTokens, setTokens, blur]
  · have hset? : Writes (fun ss? : Option (List Selection) => (ss?.map setTokens).getD []) (do
        if (← peek?) == some openBrace then return some (← set) else return none) := by
      refine writes_peek?.bind fun token => ?_
      split
      · exact hset.bind fun ss => .pure (by simp)
      · exact .pure rfl
    rw [← bind_assoc]
    refine writes_key.bind fun key => ?_
    obtain ⟨alias?, word⟩ := key
    refine (writes_arguments false fuel room).bind fun as => ?_
    refine (writes_directives fuel room).bind fun ds => hset?.bind fun ss? => .pure ?_
    cases ss? with
    | none => simp [Selection.tokens, headTokens]
    | some ss => simp [Selection.tokens, headTokens, setTokens]

/-- Selections in braces have the tokens that they are read from. -/
lemma writes_selectionSet (fuel room : Nat) : Writes setTokens (selectionSet fuel room) := by
  induction room with
  | zero => exact reads_failure
  | succ room ih =>
      rw [selectionSet]
      refine (writes_many (writes_selectionOver fuel room ih) tokens_ne_nil _ _ fuel).mono ?_
      intro used ss hused
      rw [hused, setTokens, selectionTokens_eq_flatMap]
      rfl

/-- A fragment has the tokens that it is read from. -/
lemma writes_fragment (fuel : Nat) (description? : Option Description) :
    Writes Fragment.tokens (fragment fuel description?) := by
  rw [fragment]
  refine (writes_expect _).bind fun _ => writes_name.bind fun word => ?_
  dsimp only
  split
  · exact reads_failure_bind
  · refine (writes_expect _).bind fun _ => writes_name.bind fun condition => ?_
    refine (writes_directives fuel _).bind fun ds => ?_
    exact (writes_selectionSet fuel _).bind fun ss => .pure (by simp [Fragment.tokens, blur])

/-! ### Definitions of other kinds -/

section Other

variable {item : Reader α}

lemma Consumes.pure {a : α} : Consumes (pure a : Reader α) := Reads.pure trivial

lemma consumes_failure : Consumes (failure : Reader α) := reads_failure

lemma consumes_many (hitem : Consumes item) (opening closing : Token) (fuel : Nat) :
    Consumes (many opening closing fuel item) := by
  have hupTo (fuel : Nat) : Consumes (upTo closing item fuel) := by
    induction fuel with
    | zero => exact consumes_failure
    | succ fuel ih =>
        rw [upTo]
        refine (writes_take _).consumes.bind fun closed => ?_
        split
        · exact .pure
        · exact hitem.bind fun _ => ih.bind fun _ => .pure
  rw [many]
  exact (writes_expect _).consumes.bind fun _ => hitem.bind fun _ =>
    (hupTo fuel).bind fun _ => .pure

lemma consumes_optionalMany (hitem : Consumes item) (opening closing : Token) (fuel : Nat) :
    Consumes (optionalMany opening closing fuel item) := by
  rw [optionalMany]
  refine writes_peek?.consumes.bind fun token => ?_
  split
  · exact consumes_many hitem opening closing fuel
  · exact .pure

lemma consumes_delimited (hitem : Consumes item) (separator : Token) (fuel : Nat) :
    Consumes (delimited separator fuel item) := by
  have hseparated (fuel : Nat) : Consumes (separated separator item fuel) := by
    induction fuel with
    | zero => exact consumes_failure
    | succ fuel ih =>
        rw [separated]
        refine hitem.bind fun first => (writes_take _).consumes.bind fun more => ?_
        split
        · exact ih.bind fun _ => .pure
        · exact .pure
  rw [delimited]
  exact (writes_take _).consumes.bind fun _ => hseparated fuel

lemma consumes_typeWithin (room : Nat) : Consumes (typeWithin room) := by
  have hmark (inner : TypeRef) : Consumes (do
      if ← take (.mark '!') then return .nonNull inner else return inner) := by
    refine (writes_take _).consumes.bind fun taken => ?_
    split
    · exact .pure
    · exact .pure
  induction room with
  | zero =>
      rw [typeWithin]
      refine Consumes.bind ((writes_take _).consumes.bind fun taken => ?_) hmark
      split
      · exact consumes_failure
      · exact writes_name.consumes.bind fun _ => .pure
  | succ room ih =>
      rw [typeWithin]
      refine Consumes.bind ((writes_take _).consumes.bind fun taken => ?_) hmark
      split
      · exact ih.bind fun _ => (writes_expect _).consumes.bind fun _ => .pure
      · exact writes_name.consumes.bind fun _ => .pure

lemma reads_description? : Reads
    (fun used description? => description? = none ∧ used = []
      ∨ description?.isSome ∧ used = [.string "" false]) description? := by
  intro ts a rest hrun
  cases ts with
  | nil =>
      cases hrun
      exact ⟨[], rfl, .inl ⟨rfl, rfl⟩⟩
  | cons t ts =>
      cases t with
      | string value isBlock =>
          cases hrun
          exact ⟨[.string "" false], rfl, .inr ⟨rfl, rfl⟩⟩
      | _ =>
          cases hrun
          exact ⟨[], rfl, .inl ⟨rfl, rfl⟩⟩

lemma consumes_description? : Consumes description? := reads_description?.consumes

lemma consumes_default? (fuel : Nat) : Consumes (default? fuel) := by
  rw [default?]
  refine (writes_take _).consumes.bind fun taken => ?_
  split
  · exact (writes_literal _ _ _).consumes.bind fun _ => .pure
  · exact .pure

lemma consumes_constantDirectives (fuel : Nat) : Consumes (constantDirectives fuel) :=
  (writes_directivesWithin true fuel nestingLimit fuel).consumes

lemma consumes_inputDefinition (fuel : Nat) : Consumes (inputDefinition fuel) :=
  consumes_description?.bind fun _ => writes_name.consumes.bind fun _ =>
    (writes_expect _).consumes.bind fun _ => (consumes_typeWithin _).bind fun _ =>
      (consumes_default? fuel).bind fun _ => (consumes_constantDirectives fuel).bind fun _ => .pure

lemma consumes_variableDefinition (fuel : Nat) : Consumes (variableDefinition fuel) :=
  consumes_description?.bind fun _ => (writes_expect _).consumes.bind fun _ =>
    writes_name.consumes.bind fun _ => (writes_expect _).consumes.bind fun _ =>
      (consumes_typeWithin _).bind fun _ => (consumes_default? fuel).bind fun _ =>
        (consumes_constantDirectives fuel).bind fun _ => .pure

lemma consumes_fieldDefinition (fuel : Nat) : Consumes (fieldDefinition fuel) :=
  consumes_description?.bind fun _ => writes_name.consumes.bind fun _ =>
    (consumes_optionalMany (consumes_inputDefinition fuel) _ _ fuel).bind fun _ =>
      (writes_expect _).consumes.bind fun _ => (consumes_typeWithin _).bind fun _ =>
        (consumes_constantDirectives fuel).bind fun _ => .pure

lemma consumes_enumValueDefinition (fuel : Nat) : Consumes (enumValueDefinition fuel) := by
  refine consumes_description?.bind fun _ => writes_name.consumes.bind fun word => ?_
  dsimp only
  split
  · exact reads_failure_bind
  · exact (consumes_constantDirectives fuel).bind fun _ => .pure

lemma consumes_interfaces (fuel : Nat) : Consumes (interfaces fuel) := by
  refine (writes_take _).consumes.bind fun taken => ?_
  split
  · exact consumes_delimited writes_name.consumes _ fuel
  · exact .pure

lemma consumes_operationKind : Consumes operationKind := by
  refine writes_name.consumes.bind fun word => ?_
  split
  · exact .pure
  · exact .pure
  · exact .pure
  · exact consumes_failure

lemma consumes_roots (fuel : Nat) : Consumes (roots fuel) :=
  consumes_optionalMany (consumes_operationKind.bind fun _ =>
    (writes_expect _).consumes.bind fun _ => writes_name.consumes.bind fun _ => .pure) _ _ fuel

lemma consumes_typeDefinition (fuel : Nat) (isExtension : Bool)
    (description? : Option Description) (word : String) :
    Consumes (typeDefinition fuel isExtension description? word) := by
  have hconstants := consumes_constantDirectives fuel
  have hfields := consumes_optionalMany (consumes_fieldDefinition fuel) openBrace closeBrace fuel
  refine writes_name.consumes.bind fun name => Consumes.bind ?_ fun _ => .pure
  split
  · exact hconstants.bind fun _ => .pure
  · exact (consumes_interfaces fuel).bind fun _ => hconstants.bind fun _ =>
      hfields.bind fun _ => .pure
  · exact (consumes_interfaces fuel).bind fun _ => hconstants.bind fun _ =>
      hfields.bind fun _ => .pure
  · refine hconstants.bind fun _ => (writes_take _).consumes.bind fun taken => ?_
    split
    · exact (consumes_delimited writes_name.consumes _ fuel).bind fun _ => .pure
    · exact .pure
  · exact hconstants.bind fun _ => (consumes_optionalMany (consumes_enumValueDefinition fuel)
      _ _ fuel).bind fun _ => .pure
  · exact hconstants.bind fun _ => (consumes_optionalMany (consumes_inputDefinition fuel)
      _ _ fuel).bind fun _ => .pure
  · exact consumes_failure

lemma consumes_directiveDefinition (fuel : Nat) (description? : Option Description) :
    Consumes (directiveDefinition fuel description?) := by
  have hlocation : Consumes directiveLocation := by
    refine writes_name.consumes.bind fun location => ?_
    split
    · exact .pure
    · exact consumes_failure
  exact (writes_expect _).consumes.bind fun _ => writes_name.consumes.bind fun _ =>
    (consumes_optionalMany (consumes_inputDefinition fuel) _ _ fuel).bind fun _ =>
      (writes_take _).consumes.bind fun _ => (writes_expect _).consumes.bind fun _ =>
        (consumes_delimited hlocation _ fuel).bind fun _ => .pure

lemma consumes_operation (fuel : Nat) (description? : Option Description) :
    Consumes (operation fuel description?) := by
  have hname : Consumes (do
      match ← peek? with
      | some (.name text) => let _ ← next; return some text
      | _ => return none) :=
    reads_peekName (fun _ => .pure trivial) (.pure trivial)
  exact consumes_operationKind.bind fun _ => hname.bind fun _ =>
    (consumes_optionalMany (consumes_variableDefinition fuel) _ _ fuel).bind fun _ =>
      (writes_directives fuel _).consumes.bind fun _ =>
        (writes_selectionSet fuel _).consumes.bind fun _ => .pure

end Other

/-! ### Documents -/

/-- The tokens of a fragment are among those that it is read from. -/
def Within (used : List Token) (d : Definition) : Prop := ∀ f, d = .fragment f → f.tokens <:+: used

lemma Consumes.within {reader : Reader β} {next : β → Reader Definition} (hreader : Consumes reader)
    (hnext : ∀ b, Reads Within (next b)) : Reads Within (reader >>= next) :=
  Reads.bind hreader fun b => (hnext b).mono fun _ _ h before _ f hf =>
    (h f hf).trans (List.suffix_append before _).isInfix

lemma reads_systemDefinition (fuel : Nat) (description? : Option Description) :
    Reads Within (systemDefinition fuel description?) := by
  rw [systemDefinition]
  refine writes_name.consumes.within fun word => ?_
  split
  · refine (consumes_constantDirectives fuel).within fun _ =>
      (consumes_roots fuel).within fun _ => ?_
    dsimp only
    split
    · exact reads_failure_bind
    · exact .pure fun _ h => by cases h
  · split
    · exact (consumes_directiveDefinition fuel _).within fun _ =>
        .pure fun _ h => by cases h
    · exact (consumes_typeDefinition fuel _ _ _).within fun _ =>
        .pure fun _ h => by cases h

lemma reads_extension (fuel : Nat) : Reads Within (extension fuel) := by
  rw [extension]
  refine (writes_expect _).consumes.within fun _ => writes_name.consumes.within fun word => ?_
  split
  · refine (consumes_constantDirectives fuel).within fun _ =>
      (consumes_roots fuel).within fun _ => ?_
    dsimp only
    split
    · exact reads_failure_bind
    · exact .pure fun _ h => by cases h
  · refine (consumes_typeDefinition fuel _ _ _).within fun _ => ?_
    split
    · exact .pure fun _ h => by cases h
    · exact reads_failure

lemma reads_describable (fuel : Nat) (description? : Option Description) :
    Reads Within (describable fuel description?) := by
  have hoperation : Reads Within (do return .operation (← operation fuel description?)) :=
    (consumes_operation fuel _).within fun _ => .pure fun _ h => by cases h
  rw [describable]
  refine writes_peek?.consumes.within fun token => ?_
  split
  · exact hoperation
  · exact hoperation
  · exact hoperation
  · refine (writes_fragment fuel _).bind fun f => .pure fun g hg => ?_
    cases hg
    rw [List.append_nil]
  · exact reads_systemDefinition fuel description?

lemma reads_definition (fuel : Nat) : Reads Within (definition fuel) := by
  rw [definition]
  refine writes_peek?.consumes.within fun token => ?_
  split
  · rw [bareQuery, bind_assoc]
    exact (writes_selectionSet fuel _).consumes.within fun _ => .pure fun _ h => by cases h
  · exact reads_extension fuel
  · exact consumes_description?.within fun description? => reads_describable fuel description?

/-- The tokens of each fragment are among those that definitions are read from. -/
lemma reads_definitions (whole fuel : Nat) :
    Reads (fun used ds => ∀ d ∈ ds, Within used d) (definitions whole fuel) := by
  induction fuel with
  | zero => exact reads_failure
  | succ fuel ih =>
      rw [definitions]
      refine Reads.bind (reads_definition whole) fun first => writes_get.bind fun tokens => ?_
      split
      · refine .pure fun before hfirst d hd => ?_
        rw [List.mem_singleton.mp hd]
        simpa using hfirst
      · refine Reads.bind ih fun rest => .pure fun between hrest before hfirst d hd f hf => ?_
        rw [List.nil_append, List.append_nil]
        rcases List.mem_cons.mp hd with rfl | hd
        · exact (hfirst f hf).trans (List.prefix_append _ _).isInfix
        · exact (hrest d hd f hf).trans (List.suffix_append _ _).isInfix

/-- What begins with the word of a fragment is read as a fragment, and then as what follows it. -/
lemma exists_of_fragment {whole fuel : Nat} {ts rest : List Token} {ds : List Definition}
    (h : (definitions whole fuel).run (.name "fragment" :: ts) = some (ds, rest)) :
    ∃ f between, (fragment whole none).run (.name "fragment" :: ts) = some (f, between)
      ∧ (between = [] → ds = [.fragment f]) := by
  cases fuel with
  | zero => cases h
  | succ fuel =>
      rw [definitions] at h
      obtain ⟨⟨d, between⟩, hd, h⟩ := Option.bind_eq_some_iff.mp h
      have hd : (do return .fragment (← fragment whole none) : Reader Definition).run
        (.name "fragment" :: ts) = some (d, between) := hd
      obtain ⟨⟨f, between'⟩, hf, hd⟩ := Option.bind_eq_some_iff.mp hd
      cases hd
      refine ⟨f, between, hf, ?_⟩
      rintro rfl
      cases h
      rfl

end Reader

namespace Document

variable {text : String} {document : Document}

/-- The fragments of a text are made of lexical tokens. -/
theorem lexical_of_parse? (h : Document.parse? text = some document) :
    ∀ f ∈ document.fragments, Lexical f.tokens := by
  obtain ⟨tokens, hscan, h⟩ := Option.bind_eq_some_iff.mp h
  obtain ⟨⟨definitions, rest⟩, hrun, h⟩ := Option.bind_eq_some_iff.mp h
  cases h
  obtain ⟨used, hused, hwithin⟩ := Reader.reads_definitions _ _ tokens document rest hrun
  intro f hf t ht
  obtain ⟨d, hd, hfragment⟩ := List.mem_filterMap.mp hf
  have hd' : d = .fragment f := by
    cases d with
    | fragment g => exact congrArg _ (Option.some.inj hfragment)
    | _ => cases hfragment
  have hmem : t ∈ tokens.map Token.blur := by
    rw [hused]
    exact List.mem_append_left _ ((hwithin d hd f hd').subset ht)
  obtain ⟨token, htoken, rfl⟩ := List.mem_map.mp hmem
  exact Token.isLexical_blur.mpr (Token.isLexical_of_scan? hscan token htoken)

end Document

end RemoteNodes
