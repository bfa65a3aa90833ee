import RemoteNodes.Proofs.GraphQL.Scanning
/-!
Numbers: what has been read as a number is read as the same number before anything else that ends
it.

* `Token.ReadsPart`: a part of a number that is read alike before anything that does not go on with
  it.
* `Token.IsNumeral`: a text that is read as a number; `Token.number?_eq_some`: **whatever is read as
  a number has such a text**.
* `Token.scansWhole_numeral`: such a text is scanned as one token.
-/

namespace RemoteNodes

namespace Token

variable {cs : List Char} {c : Char}

/-- Nothing that stands before these characters goes on with a digit. -/
def Undigited (rest : List Char) : Prop := ∀ c, rest.head? = some c → c.isDigit = false

lemma digits?_eq_some {ds rest : List Char} (h : digits? cs = some (ds, rest)) :
    cs = ds ++ rest ∧ (ds ≠ [] ∧ ∀ d ∈ ds, d.isDigit = true)
      ∧ ∀ rest', Undigited rest' → digits? (ds ++ rest') = some (ds, rest') := by
  simp only [digits?] at h
  split at h
  · cases h
  · rename_i hne
    cases h
    have hall : ∀ d ∈ cs.takeWhile Char.isDigit, d.isDigit = true := fun d => List.mem_takeWhile_imp
    refine ⟨(List.takeWhile_append_dropWhile).symm, ?_, fun rest' hrest' => ?_⟩
    · exact ⟨fun hnil => hne (by rw [hnil]; rfl), hall⟩
    · have hrest : rest'.takeWhile Char.isDigit = [] ∧ rest'.dropWhile Char.isDigit = rest' := by
        cases rest' with
        | nil => exact ⟨rfl, rfl⟩
        | cons c rest' =>
            have hc := hrest' c rfl
            exact ⟨List.takeWhile_cons_of_neg (by simp [hc]),
              List.dropWhile_cons_of_neg (by simp [hc])⟩
      simp only [digits?]
      rw [List.takeWhile_append_of_pos hall, List.dropWhile_append_of_pos hall, hrest.1, hrest.2,
        List.append_nil, if_neg hne]

/-- A part of a number is read alike before anything that does not go on with it: a part that is
left out does not begin there. -/
structure ReadsPart (part? : List Char → Option (List Char × List Char)) (begins : Char → Prop)
    (cs part rest : List Char) : Prop where
  eq : cs = part ++ rest
  unbroken : '\n' ∉ part
  read : ∀ rest', Undigited rest' → (part = [] → ∀ c, rest'.head? = some c → ¬ begins c) →
    part? (part ++ rest') = some (part, rest')

lemma not_mem_break_of_isDigit {ds : List Char} (h : ∀ d ∈ ds, d.isDigit = true) : '\n' ∉ ds :=
  fun hmem => absurd (h _ hmem) (by decide)

/-- The digits of a whole number, after its sign. -/
def unsigned? (sign cs : List Char) : Option (List Char × List Char) := do
  let (ds, rest) ← digits? cs
  match ds with
  | '0' :: _ :: _ => none
  | _ => some (sign ++ ds, rest)

lemma unsigned?_eq_some {sign part rest : List Char} (h : unsigned? sign cs = some (part, rest)) :
    ∃ ds, part = sign ++ ds ∧ cs = ds ++ rest ∧ (ds ≠ [] ∧ ∀ d ∈ ds, d.isDigit = true)
      ∧ ∀ rest', Undigited rest' → unsigned? sign (ds ++ rest') = some (part, rest') := by
  obtain ⟨⟨ds, between⟩, hds, h⟩ := Option.bind_eq_some_iff.mp h
  obtain ⟨hcs, hdigit, hread⟩ := digits?_eq_some hds
  dsimp only at h
  split at h
  · cases h
  · rename_i hzero
    cases h
    refine ⟨ds, rfl, hcs, hdigit, fun rest' hrest' => ?_⟩
    refine Option.bind_eq_some_iff.mpr ⟨(ds, rest'), hread rest' hrest', ?_⟩
    dsimp only
    split
    · exact (hzero _ _ rfl).elim
    · rfl

lemma wholePart?_of_head {c : Char} (hc : c ≠ '-') :
    wholePart? (c :: cs) = unsigned? [] (c :: cs) := by
  unfold wholePart?
  split
  rename_i heq
  split at heq
  · rename_i hcs
    cases hcs
    exact absurd rfl hc
  · cases heq
    rfl

lemma wholePart?_eq_some {part rest : List Char} (h : wholePart? cs = some (part, rest)) :
    ReadsPart wholePart? (fun _ => False) cs part rest
      ∧ ∃ c part', part = c :: part' ∧ (c.isDigit = true ∨ c = '-') := by
  cases cs with
  | nil => cases h
  | cons c cs =>
      by_cases hc : c = '-'
      · subst hc
        replace h : unsigned? ['-'] cs = some (part, rest) := h
        obtain ⟨ds, rfl, rfl, ⟨-, hds⟩, hread⟩ := unsigned?_eq_some h
        have hbreak : '\n' ∉ ['-'] ++ ds := by simpa using not_mem_break_of_isDigit hds
        exact ⟨⟨rfl, hbreak, fun rest' hrest' _ => hread rest' hrest'⟩, '-', ds, rfl, .inr rfl⟩
      · rw [wholePart?_of_head hc] at h
        obtain ⟨ds, rfl, hcs, ⟨hne, hds⟩, hread⟩ := unsigned?_eq_some h
        obtain ⟨d, ds', rfl⟩ := List.exists_cons_of_ne_nil hne
        have hd := hds d List.mem_cons_self
        have hminus : d ≠ '-' := by
          rintro rfl
          exact absurd hd (by decide)
        refine ⟨⟨hcs, not_mem_break_of_isDigit hds, fun rest' hrest' _ => ?_⟩, d, ds', rfl, .inl hd⟩
        exact (wholePart?_of_head hminus).trans (hread rest' hrest')

/-- Digits after what has been read before them. -/
def digitsAfter? (before cs : List Char) : Option (List Char × List Char) := do
  let (ds, rest) ← digits? cs
  some (before ++ ds, rest)

lemma digitsAfter?_eq_some {before part rest : List Char}
    (h : digitsAfter? before cs = some (part, rest)) :
    ∃ ds, part = before ++ ds ∧ cs = ds ++ rest ∧ (ds ≠ [] ∧ ∀ d ∈ ds, d.isDigit = true)
      ∧ ∀ rest', Undigited rest' → digitsAfter? before (ds ++ rest') = some (part, rest') := by
  obtain ⟨⟨ds, between⟩, hds, h⟩ := Option.bind_eq_some_iff.mp h
  obtain ⟨hcs, hdigit, hread⟩ := digits?_eq_some hds
  cases h
  refine ⟨ds, rfl, hcs, hdigit, fun rest' hrest' => ?_⟩
  exact Option.bind_eq_some_iff.mpr ⟨(ds, rest'), hread rest' hrest', rfl⟩

lemma fractionPart?_of_head {rest : List Char} (h : ∀ c, rest.head? = some c → c ≠ '.') :
    fractionPart? rest = some ([], rest) := by
  unfold fractionPart?
  split
  · exact absurd rfl (h '.' rfl)
  · rfl

lemma fractionPart?_eq_some {part rest : List Char} (h : fractionPart? cs = some (part, rest)) :
    ReadsPart fractionPart? (· = '.') cs part rest ∧ ∀ c, part.head? = some c → c = '.' := by
  by_cases hcs : ∃ cs', cs = '.' :: cs'
  · obtain ⟨cs, rfl⟩ := hcs
    replace h : digitsAfter? ['.'] cs = some (part, rest) := h
    obtain ⟨ds, rfl, rfl, ⟨-, hds⟩, hread⟩ := digitsAfter?_eq_some h
    have hbreak : '\n' ∉ ['.'] ++ ds := by simpa using not_mem_break_of_isDigit hds
    exact ⟨⟨rfl, hbreak, fun rest' hrest' _ => hread rest' hrest'⟩,
      fun c hc => (Option.some.inj hc).symm⟩
  · rw [fractionPart?_of_head fun c hc => ?_] at h
    · cases h
      refine ⟨⟨rfl, List.not_mem_nil, fun rest' _ hnone => ?_⟩, nofun⟩
      exact fractionPart?_of_head (hnone rfl)
    · rintro rfl
      exact hcs (List.head?_eq_some_iff.mp hc)

lemma exponentPart?_of_head {rest : List Char}
    (h : ∀ c, rest.head? = some c → c ≠ 'e' ∧ c ≠ 'E') : exponentPart? rest = some ([], rest) := by
  cases rest with
  | nil => rfl
  | cons c rest =>
      unfold exponentPart?
      dsimp only
      rw [if_neg (by simpa using h c rfl)]

/-- The digits of an exponent come after its letter and its sign. -/
lemma exponentPart?_of_sign {c sign : Char} (hc : c = 'e' ∨ c = 'E')
    (hsign : sign = '-' ∨ sign = '+') (cs : List Char) :
    exponentPart? (c :: sign :: cs) = digitsAfter? [c, sign] cs := by
  have hletter : (c = 'e' || c = 'E') = true := by simpa using hc
  rcases hsign with rfl | rfl
  · rw [exponentPart?, if_pos hletter]
    rfl
  · rw [exponentPart?, if_pos hletter]
    rfl

/-- Without a sign they come after the letter. -/
lemma exponentPart?_of_letter {c : Char} (hc : c = 'e' ∨ c = 'E')
    (hcs : ∀ d, cs.head? = some d → d ≠ '-' ∧ d ≠ '+') :
    exponentPart? (c :: cs) = digitsAfter? [c] cs := by
  have hletter : (c = 'e' || c = 'E') = true := by simpa using hc
  rw [exponentPart?, if_pos hletter]
  · rfl
  · rintro cs rfl
    exact (hcs _ rfl).1 rfl
  · rintro cs rfl
    exact (hcs _ rfl).2 rfl

lemma exponentPart?_eq_some {part rest : List Char} (h : exponentPart? cs = some (part, rest)) :
    ReadsPart exponentPart? (fun c => c = 'e' ∨ c = 'E') cs part rest
      ∧ ∀ c, part.head? = some c → c = 'e' ∨ c = 'E' := by
  by_cases hletter : ∃ c cs', cs = c :: cs' ∧ (c = 'e' ∨ c = 'E')
  · obtain ⟨c, cs, rfl, hc⟩ := hletter
    have hhead {d : Char} {ds : List Char} (hd : (c :: ds).head? = some d) : d = 'e' ∨ d = 'E' :=
      Option.some.inj hd ▸ hc
    by_cases hsign : ∃ sign cs', cs = sign :: cs' ∧ (sign = '-' ∨ sign = '+')
    · obtain ⟨sign, cs, rfl, hsign⟩ := hsign
      rw [exponentPart?_of_sign hc hsign] at h
      obtain ⟨ds, rfl, rfl, ⟨-, hds⟩, hread⟩ := digitsAfter?_eq_some h
      have hbreak : '\n' ∉ [c, sign] ++ ds := by
        have hds := not_mem_break_of_isDigit hds
        rcases hc with rfl | rfl <;> rcases hsign with rfl | rfl <;> simpa using hds
      refine ⟨⟨rfl, hbreak, fun rest' hrest' _ => ?_⟩, fun d => hhead⟩
      exact (exponentPart?_of_sign hc hsign _).trans (hread rest' hrest')
    · have hcs (d : Char) (hd : cs.head? = some d) : d ≠ '-' ∧ d ≠ '+' := by
        obtain ⟨cs', hcs⟩ := List.head?_eq_some_iff.mp hd
        exact ⟨fun h => hsign ⟨d, cs', hcs, .inl h⟩, fun h => hsign ⟨d, cs', hcs, .inr h⟩⟩
      rw [exponentPart?_of_letter hc hcs] at h
      obtain ⟨ds, rfl, rfl, ⟨hne, hds⟩, hread⟩ := digitsAfter?_eq_some h
      obtain ⟨d, ds', rfl⟩ := List.exists_cons_of_ne_nil hne
      have hbreak : '\n' ∉ [c] ++ d :: ds' := by
        have hds := not_mem_break_of_isDigit hds
        rcases hc with rfl | rfl <;> simpa using hds
      refine ⟨⟨rfl, hbreak, fun rest' hrest' _ => ?_⟩, fun d => hhead⟩
      have hcs' : ∀ e, (d :: ds' ++ rest').head? = some e → e ≠ '-' ∧ e ≠ '+' := hcs
      exact (exponentPart?_of_letter hc hcs').trans (hread rest' hrest')
  · rw [exponentPart?_of_head fun c hc => ?_] at h
    · cases h
      refine ⟨⟨rfl, List.not_mem_nil, fun rest' _ hnone => ?_⟩, nofun⟩
      exact exponentPart?_of_head fun c hc => not_or.mp (hnone rfl c hc)
    · obtain ⟨cs', hcs⟩ := List.head?_eq_some_iff.mp hc
      exact ⟨fun h => hletter ⟨c, cs', hcs, .inl h⟩, fun h => hletter ⟨c, cs', hcs, .inr h⟩⟩

/-- A text that is read as a number before anything that ends it. -/
structure IsNumeral (token : Token) (text : String) : Prop where
  head : ∃ c cs, text.toList = c :: cs ∧ (c.isDigit = true ∨ c = '-')
  unbroken : '\n' ∉ text.toList
  read : ∀ rest, Stops rest → number? (text.toList ++ rest) = some (token, rest)

/-- Nothing that stops tokens goes on with a number. -/
lemma Stops.undigited {rest : List Char} (h : Stops rest) : Undigited rest
    ∧ ∀ c, rest.head? = some c → c ≠ '.' ∧ c ≠ 'e' ∧ c ≠ 'E' ∧ isNameStart c = false := by
  have hall : ∀ c ∈ " \n,:()]\x7d".toList, c.isDigit = false ∧ c ≠ '.' ∧ c ≠ 'e' ∧ c ≠ 'E'
      ∧ isNameStart c = false := List.forall_iff_forall_mem.mp (by decide)
  exact ⟨fun c hc => (hall c (List.contains_iff_mem.mp (h c hc))).1,
    fun c hc => (hall c (List.contains_iff_mem.mp (h c hc))).2⟩

lemma undigited_append {part rest : List Char}
    (hpart : ∀ c, part.head? = some c → c.isDigit = false) (hrest : Undigited rest) :
    Undigited (part ++ rest) := by
  cases part with
  | nil => exact hrest
  | cons c part => exact hpart

/-- The parts of a number are read as that number before anything that ends it. -/
lemma number?_append {whole fraction exponent cs₁ cs₂ cs₃ : List Char}
    (hwhole : ReadsPart wholePart? (fun _ => False) cs whole cs₁)
    (hfraction : ReadsPart fractionPart? (· = '.') cs₁ fraction cs₂)
    (hpoint : ∀ c, fraction.head? = some c → c = '.')
    (hexponent : ReadsPart exponentPart? (fun c => c = 'e' ∨ c = 'E') cs₂ exponent cs₃)
    (hletter : ∀ c, exponent.head? = some c → c = 'e' ∨ c = 'E') {rest : List Char}
    (hrest : Stops rest) :
    number? (whole ++ fraction ++ exponent ++ rest)
      = some (if fraction.isEmpty && exponent.isEmpty
          then int (String.ofList (whole ++ fraction ++ exponent))
          else float (String.ofList (whole ++ fraction ++ exponent)), rest) := by
  obtain ⟨hdigit, hother⟩ := hrest.undigited
  have hexponents : Undigited (exponent ++ rest) := undigited_append (fun c hc => by
    rcases hletter c hc with rfl | rfl <;> rfl) hdigit
  have hfractions : Undigited (fraction ++ (exponent ++ rest)) :=
    undigited_append (fun c hc => by rw [hpoint c hc]; rfl) hexponents
  have hpoints (c : Char) (hc : (exponent ++ rest).head? = some c) : c ≠ '.' := by
    cases exponent with
    | nil => exact (hother c hc).1
    | cons d exponent =>
        rcases hletter c hc with rfl | rfl
        · decide
        · decide
  have hend : ¬ rest.head?.any (fun c => c = '.' || isNameStart c) = true := by
    cases hhead : rest.head? with
    | none => simp
    | some c => simp [hother c hhead]
  rw [List.append_assoc, List.append_assoc]
  refine Option.bind_eq_some_iff.mpr ⟨_, hwhole.read _ hfractions fun _ _ _ => not_false, ?_⟩
  refine Option.bind_eq_some_iff.mpr ⟨_, hfraction.read _ hexponents fun _ => hpoints, ?_⟩
  refine Option.bind_eq_some_iff.mpr ⟨_, hexponent.read _ hdigit fun _ c hc => ?_, ?_⟩
  · exact not_or.mpr ⟨(hother c hc).2.1, (hother c hc).2.2.1⟩
  · exact if_neg hend

/-- What has been read as a number is a text that is read as one. -/
lemma number?_eq_some {token : Token} {rest : List Char} (h : number? cs = some (token, rest)) :
    ∃ text, cs = text.toList ++ rest ∧ (token = .int text ∨ token = .float text)
      ∧ IsNumeral token text := by
  obtain ⟨⟨whole, afterWhole⟩, hwhole, h⟩ := Option.bind_eq_some_iff.mp h
  obtain ⟨⟨fraction, afterFraction⟩, hfraction, h⟩ := Option.bind_eq_some_iff.mp h
  obtain ⟨⟨exponent, afterExponent⟩, hexponent, h⟩ := Option.bind_eq_some_iff.mp h
  dsimp only at h
  split at h
  · cases h
  cases h
  obtain ⟨hwhole, c, digits, rfl, hc⟩ := wholePart?_eq_some hwhole
  obtain ⟨hfraction, hpoint⟩ := fractionPart?_eq_some hfraction
  obtain ⟨hexponent, hletter⟩ := exponentPart?_eq_some hexponent
  refine ⟨String.ofList (c :: digits ++ fraction ++ exponent), ?_, ?_, ?_⟩
  · rw [String.toList_ofList, List.append_assoc, List.append_assoc, ← hexponent.eq, ← hfraction.eq,
      ← hwhole.eq]
  · split
    · exact .inl rfl
    · exact .inr rfl
  refine ⟨⟨c, digits ++ fraction ++ exponent, ?_, hc⟩, ?_, fun rest' hrest' => ?_⟩
  · rw [String.toList_ofList]
    rfl
  · rw [String.toList_ofList, List.mem_append, List.mem_append, not_or, not_or]
    exact ⟨⟨hwhole.unbroken, hfraction.unbroken⟩, hexponent.unbroken⟩
  · rw [String.toList_ofList]
    exact number?_append hwhole hfraction hpoint hexponent hletter hrest'

lemma scansWhole_numeral {token : Token} {text : String} (h : IsNumeral token text)
    (htoken : token.blur = token) : ScansWhole text.toList [token] := by
  intro depth fuel found rest tokens hrest hscan
  rw [shift_of_not_mem h.unbroken] at hscan
  obtain ⟨c, cs, htext, hc⟩ := h.head
  have hread := h.read rest hrest
  rw [htext, List.cons_append] at hscan hread
  have hpart : isNamePart c = true ∨ c = '-' := hc.imp_left fun hdigit => by
    simp [isNamePart, Char.isAlphanum, hdigit]
  obtain ⟨fuel, hscan⟩ := scanFrom_word hpart hscan
  rw [if_pos (by simpa using hc), hread] at hscan
  exact ⟨fuel, [token], congrArg (· :: []) htoken, hscan⟩

end Token

end RemoteNodes
