import HdlModule.Proofs.Grammar.Places

/-!
# How far readers look ahead

Readers decide by the tokens in front of them and look at few more. A fault names the last token
that was looked at, and a text that goes on in another way behind this token has the same fault.

Two readings of texts that start alike are compared. Either they take the same course, or the
first one reaches the part in which the texts may differ; from there on it finds faults in that
part only. The names of a port declaration are the one place where two tokens are looked at: a
comma at the end of the common part may go on with names in one text and end them in the other.

## Main definitions

* `Fault.last? fault`: the last token that a fault is about
* `Within ts x`: the result `x` of a reader leaves tokens of `ts`, or is a fault at one of them
* `ReadAlike r r' x x'`: the results of reading texts that end with `r` and with `r'`
* `Decides read`: a reader stays within its tokens, and readings of texts that start alike are
  alike
* `ListReader`: the reader of a list, with what is known of the reader of its items
* `readOpening`: what is read of a module in front of its body

## Main results

* `ListReader.decides`: a list decides if its items do
* `decides_readOpening`: the opening of a module is decided by the tokens that are looked at
* `ofTokens_eq`: behind the opening only the end of the module is looked for
-/

namespace HdlModule

/-- The last token that a fault is about. Faults about the end of the text are about none. -/
def Fault.last? : Fault → Option Token
  | unexpected _ found => found
  | parameterLiteral _ literal _ => some literal
  | valueContinues _ _ last => some last
  | boundLiteral literal _ => some literal
  | ascendingRange _ closer _ _ => some closer
  | wideRange _ closer _ _ => some closer
  | noHeader | unclosed _ _ | noEnd _ _ => none

/-! ### Results within some tokens -/

section Within

variable {α β : Type} {ts ts' : List Token}

/-- The reader has left tokens at the end of `ts`, or its fault is about no other tokens. -/
def Within (ts : List Token) : Except Fault (α × List Token) → Prop
  | .ok (_, rest) => rest <:+ ts
  | .error fault => ∀ t ∈ fault.last?, t ∈ ts

theorem Within.mono {x : Except Fault (α × List Token)} (h : Within ts x) (hts : ts <:+ ts') :
    Within ts' x := by
  cases x with
  | error fault => exact fun t ht => hts.subset (h t ht)
  | ok s => exact List.IsSuffix.trans h hts

/-- What is read behind a result within some tokens is within these. -/
theorem Within.bind {x : Except Fault (α × List Token)}
    {f : α × List Token → Except Fault (β × List Token)} (hx : Within ts x)
    (hf : ∀ s, x = .ok s → Within s.2 (f s)) : Within ts (x >>= f) := by
  cases x with
  | error fault => exact hx
  | ok s => exact (hf s rfl).mono hx

/-- Only the value that is read is changed. -/
theorem Within.map {x : Except Fault (α × List Token)} (hx : Within ts x) (g : α → β) :
    Within ts (x >>= fun s => .ok (g s.1, s.2)) :=
  hx.bind fun s _ => List.suffix_refl s.2

end Within

/-! ### Texts that start alike -/

section ReadAlike

variable {α β : Type} {p r r' : List Token}

/-- `ReadAlike r r' x x'`: of two readings of texts that end with `r` and with `r'`, both stop in
front of the same tokens and these ends, or have the same fault, or the first one has reached
`r`. -/
inductive ReadAlike (r r' : List Token) :
    Except Fault (α × List Token) → Except Fault (α × List Token) → Prop
  | ok (a : α) (q : List Token) : ReadAlike r r' (.ok (a, q ++ r)) (.ok (a, q ++ r'))
  | error (fault : Fault) : ReadAlike r r' (.error fault) (.error fault)
  | reached {x x' : Except Fault (α × List Token)} (h : Within r x) : ReadAlike r r' x x'

/-- Readings in two steps are alike if both steps are. -/
theorem ReadAlike.bind {x x' : Except Fault (α × List Token)}
    {f : α × List Token → Except Fault (β × List Token)} (hx : ReadAlike r r' x x')
    (hwithin : ∀ s, x = .ok s → Within s.2 (f s))
    (hf : ∀ a q, x = .ok (a, q ++ r) → ReadAlike r r' (f (a, q ++ r)) (f (a, q ++ r'))) :
    ReadAlike r r' (x >>= f) (x' >>= f) := by
  cases hx with
  | ok a q => exact hf a q rfl
  | error fault => exact .error fault
  | reached h => exact .reached (h.bind hwithin)

theorem ReadAlike.map {x x' : Except Fault (α × List Token)} (hx : ReadAlike r r' x x')
    (g : α → β) :
    ReadAlike r r' (x >>= fun s => .ok (g s.1, s.2)) (x' >>= fun s => .ok (g s.1, s.2)) :=
  hx.bind (fun s _ => List.suffix_refl s.2) fun a q _ => .ok (g a) q

/-- A value is read from both texts, or what is left is in the part that is exchanged. -/
theorem ReadAlike.of_ok {a : α} {ts : List Token} {x' : Except Fault (α × List Token)}
    (h : ReadAlike r r' (.ok (a, ts)) x') :
    (∃ q, ts = q ++ r ∧ x' = .ok (a, q ++ r')) ∨ ts <:+ r := by
  -- the first result is named, so that the cases do not look into its tokens
  generalize hx : (.ok (a, ts) : Except Fault (α × List Token)) = x at h
  cases h with
  | ok b q =>
    cases hx
    exact Or.inl ⟨q, rfl, rfl⟩
  | error => cases hx
  | reached h =>
    subst hx
    exact Or.inr h

/-- A fault is found in both texts, or it is about a token in the part that is exchanged. -/
theorem ReadAlike.of_error {fault : Fault} {x' : Except Fault (α × List Token)}
    (h : ReadAlike r r' (.error fault) x') : x' = .error fault ∨ ∀ t ∈ fault.last?, t ∈ r := by
  generalize hx : (.error fault : Except Fault (α × List Token)) = x at h
  cases h with
  | ok => cases hx
  | error fault =>
    cases hx
    exact Or.inl rfl
  | reached h =>
    subst hx
    exact Or.inr h

/-- A reader decides by the tokens that it looks at: it stays within the tokens that it is given,
and readings of texts that start alike are alike. -/
structure Decides (read : List Token → Except Fault (α × List Token)) : Prop where
  within : ∀ ts, Within ts (read ts)
  alike : ∀ p r r', ReadAlike r r' (read (p ++ r)) (read (p ++ r'))

variable {read : List Token → Except Fault (α × List Token)}

/-- A reader that takes nothing decides. -/
theorem decides_ok (a : α) : Decides fun ts => .ok (a, ts) :=
  ⟨fun ts => List.suffix_refl ts, fun p _ _ => .ok a p⟩

/-- Readers that follow each other decide if each of them does. -/
theorem Decides.bind {f : α × List Token → Except Fault (β × List Token)} (hread : Decides read)
    (hf : ∀ a, Decides fun ts => f (a, ts)) : Decides fun ts => read ts >>= f where
  within ts := (hread.within ts).bind fun s _ => (hf s.1).within s.2
  alike p r r' := (hread.alike p r r').bind (fun s _ => (hf s.1).within s.2)
    fun a q _ => (hf a).alike q r r'

/-- Only the value that is read is changed. -/
theorem Decides.map (hread : Decides read) (g : α → β) :
    Decides fun ts => read ts >>= fun s => .ok (g s.1, s.2) :=
  hread.bind fun a => decides_ok (g a)

/-- What a reader does with a token in front: it refuses the token, or leaves it to another reader,
or reads on behind it. -/
inductive Meets (read : List Token → Except Fault (α × List Token)) (t : Token) : Prop
  | refuses (fault : Fault) (hfault : ∀ s ∈ fault.last?, s = t)
      (h : ∀ ts, read (t :: ts) = .error fault)
  | leaves (next : List Token → Except Fault (α × List Token)) (hnext : Decides next)
      (h : ∀ ts, read (t :: ts) = next (t :: ts))
  | readsOn (next : List Token → Except Fault (α × List Token)) (hnext : Decides next)
      (h : ∀ ts, read (t :: ts) = next ts)

/-- A reader that looks at one token first decides. -/
theorem Decides.of_meets (hnil : Within [] (read [])) (h : ∀ t, Meets read t) : Decides read := by
  have hwithin : ∀ ts, Within ts (read ts) := by
    intro ts
    cases ts with
    | nil => exact hnil
    | cons t ts =>
      cases h t with
      | refuses fault hfault heq =>
        rw [heq]
        intro s hs
        rw [hfault s hs]
        exact List.mem_cons_self
      | leaves next hnext heq =>
        rw [heq]
        exact hnext.within (t :: ts)
      | readsOn next hnext heq =>
        rw [heq]
        exact (hnext.within ts).mono (List.suffix_cons t ts)
  refine ⟨hwithin, fun p r r' => ?_⟩
  cases p with
  | nil => exact .reached (hwithin r)
  | cons t p =>
    rw [List.cons_append, List.cons_append]
    cases h t with
    | refuses fault hfault heq =>
      rw [heq, heq]
      exact .error fault
    | leaves next hnext heq =>
      rw [heq, heq]
      exact hnext.alike (t :: p) r r'
    | readsOn next hnext heq =>
      rw [heq, heq]
      exact hnext.alike p r r'

end ReadAlike

/-! ### Readers of parameters -/

theorem within_nil_error {α : Type} {fault : Fault} (h : fault.last? = none) :
    Within [] (.error fault : Except Fault (α × List Token)) := by
  intro t ht
  rw [h] at ht
  cases ht

theorem decides_takeToken (kind : TokenKind) (expected : Expectation) :
    Decides (takeToken kind expected) := by
  refine .of_meets (within_nil_error rfl) fun t => ?_
  by_cases ht : t.kind = kind
  · exact .readsOn _ (decides_ok t) fun ts => by rw [takeToken, if_pos ht]
  · refine .refuses (.unexpected expected (some t)) (by simp [Fault.last?]) fun ts => ?_
    rw [takeToken, if_neg ht]

theorem decides_takeKeyword (c : TokenKind → Bool) :
    Decides fun ts => .ok (takeKeyword c ts) := by
  refine .of_meets (List.suffix_refl []) fun t => ?_
  by_cases ht : c t.kind = true
  · exact .readsOn _ (decides_ok [t.text.toLower]) fun ts => by rw [takeKeyword, if_pos ht]
  · exact .leaves _ (decides_ok []) fun ts => by rw [takeKeyword, if_neg ht]

theorem throughBracket_suffix (ts : List Token) : (throughBracket ts).2 <:+ ts := by
  induction ts with
  | nil => exact List.suffix_refl []
  | cons t ts ih =>
    rw [throughBracket]
    split
    · exact List.suffix_cons t ts
    · exact ih.trans (List.suffix_cons t ts)

/-- A range that is not closed among the common tokens is read into the ends. -/
theorem decides_throughBracket : Decides fun ts => .ok (throughBracket ts) := by
  refine ⟨throughBracket_suffix, fun p r r' => ?_⟩
  induction p with
  | nil => exact .reached (throughBracket_suffix r)
  | cons t p ih =>
    simp only [List.cons_append, throughBracket]
    split
    · exact .ok [t] p
    · have hcons : ∀ ts, (.ok (t :: (throughBracket ts).1, (throughBracket ts).2) :
          Except Fault (List Token × List Token)) =
            .ok (throughBracket ts) >>= fun s => .ok (t :: s.1, s.2) := fun ts => rfl
      rw [hcons, hcons]
      exact ih.map (t :: ·)

theorem decides_takeRange : Decides fun ts => .ok (takeRange ts) := by
  refine .of_meets (List.suffix_refl []) fun t => ?_
  by_cases ht : t.kind = .leftBracket
  · refine .readsOn _ (decides_throughBracket.map fun range =>
      [String.join ((t :: range).map Token.text)]) fun ts => ?_
    rw [takeRange, if_pos ht]
    rfl
  · exact .leaves _ (decides_ok []) fun ts => by rw [takeRange, if_neg ht]

theorem decides_declaredType : Decides fun ts => .ok (declaredType ts) := by
  show Decides fun ts => .ok (takeKeyword TokenKind.isParameterType ts) >>= fun type =>
    .ok (takeKeyword TokenKind.isSign type.2) >>= fun sign =>
      .ok (takeRange sign.2) >>= fun range =>
        .ok (typeOfParts (type.1 ++ sign.1 ++ range.1), range.2)
  refine (decides_takeKeyword TokenKind.isParameterType).bind fun type => ?_
  dsimp only
  refine (decides_takeKeyword TokenKind.isSign).bind fun sign => ?_
  exact decides_takeRange.map fun range => typeOfParts (type ++ sign ++ range)

theorem decides_nextType (inherited : Option String) :
    Decides fun ts => .ok (nextType inherited ts) := by
  refine .of_meets (List.suffix_refl []) fun t => ?_
  by_cases ht : t.kind = .keyword .parameter
  · exact .readsOn _ decides_declaredType fun ts => by rw [nextType, if_pos ht]
  · exact .leaves _ (decides_ok inherited) fun ts => by rw [nextType, if_neg ht]

theorem decides_takeSign : Decides fun ts => .ok (takeSign ts) := by
  refine .of_meets (List.suffix_refl []) fun t => ?_
  by_cases ht : t.kind = .plus ∨ t.kind = .minus
  · exact .readsOn _ (decides_ok (some t)) fun ts => by rw [takeSign, if_pos ht]
  · exact .leaves _ (decides_ok none) fun ts => by rw [takeSign, if_neg ht]

/-- A literal has a value once it is seen what stands behind it. -/
theorem decides_readLiteral (parameter : String) (sign? : Option Token) :
    Decides (readLiteral parameter sign?) := by
  refine .of_meets (within_nil_error rfl) fun literal => ?_
  cases hkind : literal.kind.isInteger with
  | false =>
    refine .refuses (.unexpected (.parameterValue parameter) (some literal))
      (by simp [Fault.last?]) fun ts => ?_
    simp [readLiteral, hkind]
  | true =>
    cases hvalue : literalValue literal.chars with
    | error fault =>
      refine .refuses (.parameterLiteral parameter literal fault) (by simp [Fault.last?])
        fun ts => ?_
      simp [readLiteral, hkind, hvalue]
    | ok value =>
      refine .readsOn (fun ts => readLiteral parameter sign? (literal :: ts)) ?_ fun ts => rfl
      simp only [readLiteral, hkind, hvalue, if_true]
      refine .of_meets (List.suffix_refl []) fun next => ?_
      by_cases hnext : next.kind = .comma ∨ next.kind = .rightParen
      · exact .leaves _ (decides_ok (signedValue sign? value)) fun ts => by
          simp only [hnext, if_true]
      · refine .refuses (.valueContinues parameter (sign?.getD literal) next)
          (by simp [Fault.last?]) fun ts => ?_
        simp only [hnext, if_false]

theorem decides_readValue (parameter : String) : Decides (readValue parameter) := by
  show Decides fun ts => .ok (takeSign ts) >>= fun sign => readLiteral parameter sign.1 sign.2
  exact decides_takeSign.bind (decides_readLiteral parameter)

theorem decides_readParameter (inherited : Option String) :
    Decides (readParameter inherited) := by
  show Decides fun ts => .ok (nextType inherited ts) >>= fun type =>
    takeToken .identifier .parameterName type.2 >>= fun name =>
      takeToken .equals (.parameterEquals name.1.text) name.2 >>= fun equals =>
        readValue name.1.text equals.2 >>= fun value =>
          .ok ((⟨name.1.text, type.1, value.1⟩ : Parameter), value.2)
  refine (decides_nextType inherited).bind fun type? => ?_
  dsimp only
  refine (decides_takeToken .identifier .parameterName).bind fun name => ?_
  dsimp only
  refine (decides_takeToken .equals (.parameterEquals name.text)).bind fun _ => ?_
  exact (decides_readValue name.text).map fun value => (⟨name.text, type?, value⟩ : Parameter)

/-! ### Lists -/

section Lists

variable {α β ι : Type}

/-- A reader decides by the tokens that it looks at, but for a comma at the end of the common
tokens, in front of which it may stop in one text and not in the other. -/
structure DecidesToComma (read : List Token → Except Fault (α × List Token)) : Prop where
  within : ∀ ts, Within ts (read ts)
  alike : ∀ p r r', ReadAlike r r' (read (p ++ r)) (read (p ++ r')) ∨
    ∃ a comma, comma.kind = .comma ∧ read (p ++ r) = .ok (a, comma :: r)

theorem Decides.decidesToComma {read : List Token → Except Fault (α × List Token)}
    (h : Decides read) : DecidesToComma read :=
  ⟨h.within, fun p r r' => Or.inl (h.alike p r r')⟩

/-- A reader of a list of items with separators between them, up to a closing parenthesis. An item
may tell the next one something. -/
structure ListReader (ι α β : Type) where
  item : ι → List Token → Except Fault (α × List Token)
  read : ι → List Token → Except Fault (β × List Token)
  separates : TokenKind → Prop
  [decidableSeparates : DecidablePred separates]
  /-- The fault at the end of the text. -/
  unclosed : Fault
  /-- What is expected behind an item. -/
  expected : Expectation
  next : α → ι
  one : α → β
  more : α → β → β
  read_eq : ∀ i ts, read i ts = item i ts >>= fun s =>
    match s.2 with
    | [] => .error unclosed
    | t :: rest =>
      if separates t.kind then read (next s.1) rest >>= fun s' => .ok (more s.1 s'.1, s'.2)
      else if t.kind = .rightParen then .ok (one s.1, rest)
      else .error (.unexpected expected (some t))
  unclosed_last? : unclosed.last? = none
  separates_comma : separates .comma
  item_decides : ∀ i, DecidesToComma (item i)
  item_lt : ∀ i ts s, item i ts = .ok s → s.2.length < ts.length

namespace ListReader

attribute [instance] decidableSeparates

variable (L : ListReader ι α β)

/-- What is read behind an item. -/
def behind (a : α) : List Token → Except Fault (β × List Token)
  | [] => .error L.unclosed
  | t :: rest =>
    if L.separates t.kind then L.read (L.next a) rest >>= fun s => .ok (L.more a s.1, s.2)
    else if t.kind = .rightParen then .ok (L.one a, rest)
    else .error (.unexpected L.expected (some t))

theorem read_eq_behind (i : ι) (ts : List Token) :
    L.read i ts = L.item i ts >>= fun s => L.behind s.1 s.2 := by
  rw [L.read_eq]
  rfl

theorem within_behind {a : α} {ts : List Token}
    (hread : ∀ t rest, ts = t :: rest → Within rest (L.read (L.next a) rest)) :
    Within ts (L.behind a ts) := by
  cases ts with
  | nil => exact within_nil_error L.unclosed_last?
  | cons t rest =>
    rw [behind]
    split
    · exact ((hread t rest rfl).map (L.more a)).mono (List.suffix_cons t rest)
    · split
      · exact List.suffix_cons t rest
      · simp [Within, Fault.last?]

theorem within (i : ι) (ts : List Token) : Within ts (L.read i ts) := by
  rw [L.read_eq_behind]
  refine ((L.item_decides i).within ts).bind fun s hs => L.within_behind fun t rest hrest => ?_
  have hlt : rest.length < ts.length := by
    have hitem := L.item_lt i ts s hs
    rw [hrest, List.length_cons] at hitem
    omega
  exact within (L.next s.1) rest
termination_by ts.length

/-- Behind an item both texts go on alike, or the list ends with the common tokens. -/
theorem alike_behind {a : α} {p r r' : List Token}
    (hread : ∀ t q, p = t :: q →
      ReadAlike r r' (L.read (L.next a) (q ++ r)) (L.read (L.next a) (q ++ r'))) :
    ReadAlike r r' (L.behind a (p ++ r)) (L.behind a (p ++ r')) := by
  cases p with
  | nil => exact .reached (L.within_behind fun _ rest _ => L.within (L.next a) rest)
  | cons t q =>
    rw [List.cons_append, List.cons_append, behind, behind]
    split
    · exact (hread t q rfl).map (L.more a)
    · split
      · exact .ok (L.one a) q
      · exact .error _

/-- A comma in front of which an item may stop separates two items, so what follows the comma is
read on. -/
theorem alike (i : ι) (p r r' : List Token) :
    ReadAlike r r' (L.read i (p ++ r)) (L.read i (p ++ r')) := by
  rw [L.read_eq_behind, L.read_eq_behind]
  rcases (L.item_decides i).alike p r r' with halike | ⟨a, comma, hkind, hread⟩
  · refine halike.bind (fun s _ => L.within_behind fun _ rest _ => L.within _ rest) ?_
    intro a q hread
    refine L.alike_behind fun t q' hq => ?_
    have hlt : q'.length < p.length := by
      have hitem := L.item_lt i _ _ hread
      simp only [hq, List.length_append, List.length_cons] at hitem
      omega
    exact alike (L.next a) q' r r'
  · refine .reached ?_
    rw [hread]
    show Within r (L.behind a (comma :: r))
    rw [behind, hkind, if_pos L.separates_comma]
    exact (L.within (L.next a) r).map (L.more a)
termination_by p.length

/-- **A list decides** by the tokens that are looked at. -/
theorem decides (i : ι) : Decides (L.read i) := ⟨L.within i, L.alike i⟩

end ListReader

end Lists

/-- The parameters of a list. Each one tells the next its type. -/
def parameterReader (opener : Token) : ListReader (Option String) Parameter (List Parameter) where
  item := readParameter
  read := readParameters opener
  separates k := k = .comma
  decidableSeparates k := inferInstanceAs (Decidable (k = .comma))
  unclosed := .unclosed .parameters opener
  expected := .parameterSeparator
  next := Parameter.type?
  one parameter := [parameter]
  more := List.cons
  read_eq := readParameters_eq opener
  unclosed_last? := rfl
  separates_comma := rfl
  item_decides inherited := (decides_readParameter inherited).decidesToComma
  item_lt _ _ _ := length_lt_of_readParameter

section OrEmpty

variable {α : Type} {read : List Token → Except Fault (α × List Token)}

/-- The reader of a list that may be empty. -/
def orEmpty (read : List Token → Except Fault (α × List Token)) (empty : α) :
    List Token → Except Fault (α × List Token)
  | [] => read []
  | t :: rest => if t.kind = .rightParen then .ok (empty, rest) else read (t :: rest)

theorem Decides.orEmpty (hread : Decides read) (empty : α) :
    Decides (HdlModule.orEmpty read empty) := by
  refine .of_meets (hread.within []) fun t => ?_
  by_cases ht : t.kind = .rightParen
  · exact .readsOn _ (decides_ok empty) fun ts => by rw [HdlModule.orEmpty, if_pos ht]
  · exact .leaves _ hread fun ts => by rw [HdlModule.orEmpty, if_neg ht]

end OrEmpty

theorem decides_readParameterList : Decides readParameterList := by
  refine .of_meets (List.suffix_refl []) fun t => ?_
  by_cases ht : t.kind = .hash
  · have hdecides : Decides fun ts => takeToken .leftParen .parameterList ts >>= fun opener =>
        orEmpty (readParameters opener.1 none) [] opener.2 := by
      refine (decides_takeToken .leftParen .parameterList).bind fun opener => ?_
      exact ((parameterReader opener).decides none).orEmpty []
    refine .readsOn _ hdecides fun ts => ?_
    rw [readParameterList, if_pos ht]
    rfl
  · exact .leaves _ (decides_ok []) fun ts => by rw [readParameterList, if_neg ht]

/-! ### Readers of ports -/

theorem decides_readBound : Decides readBound := by
  refine .of_meets (within_nil_error rfl) fun literal => ?_
  cases hkind : literal.kind.isInteger with
  | false =>
    refine .refuses (.unexpected .rangeBound (some literal)) (by simp [Fault.last?]) fun ts => ?_
    simp [readBound, hkind]
  | true =>
    cases hvalue : literalValue literal.chars with
    | error fault =>
      refine .refuses (.boundLiteral literal fault) (by simp [Fault.last?]) fun ts => ?_
      simp [readBound, hkind, hvalue]
    | ok value =>
      refine .readsOn _ (decides_ok value) fun ts => ?_
      simp [readBound, hkind, hvalue]

/-- The fault of a range is about the bracket that closes it. -/
theorem last?_of_rangeWidth {opener closer : Token} {high low : Nat} {fault : Fault}
    (h : rangeWidth opener closer high low = .error fault) : fault.last? = some closer := by
  unfold rangeWidth at h
  split at h
  · cases h
    rfl
  · split at h
    · cases h
    · cases h
      rfl

/-- The width of a range is known with the bracket that closes it. -/
theorem decides_rangeEnd (opener : Token) (high low : Nat) :
    Decides fun ts => takeToken .rightBracket .rangeClose ts >>= fun closer =>
      rangeWidth opener closer.1 high low >>= fun width => .ok (width, closer.2) := by
  refine .of_meets (within_nil_error rfl) fun t => ?_
  by_cases ht : t.kind = .rightBracket
  · cases hwidth : rangeWidth opener t high low with
    | error fault =>
      refine .refuses fault ?_ fun ts => ?_
      · rw [last?_of_rangeWidth hwidth]
        exact fun s hs => (Option.some.inj hs).symm
      · rw [takeToken, if_pos ht]
        show rangeWidth opener t high low >>= _ = _
        rw [hwidth]
        rfl
    | ok width =>
      refine .readsOn _ (decides_ok width) fun ts => ?_
      rw [takeToken, if_pos ht]
      show rangeWidth opener t high low >>= _ = _
      rw [hwidth]
      rfl
  · refine .refuses (.unexpected .rangeClose (some t)) (by simp [Fault.last?]) fun ts => ?_
    rw [takeToken, if_neg ht]
    rfl

theorem decides_readRange : Decides readRange := by
  refine .of_meets (List.suffix_refl []) fun t => ?_
  by_cases ht : t.kind = .leftBracket
  · have hdecides : Decides fun ts => readBound ts >>= fun high =>
        takeToken .colon .rangeColon high.2 >>= fun colon =>
          readBound colon.2 >>= fun low =>
            takeToken .rightBracket .rangeClose low.2 >>= fun closer =>
              rangeWidth t closer.1 high.1 low.1 >>= fun width => .ok (width, closer.2) := by
      refine decides_readBound.bind fun high => ?_
      dsimp only
      refine (decides_takeToken .colon .rangeColon).bind fun _ => ?_
      dsimp only
      exact decides_readBound.bind fun low => decides_rangeEnd t high low
    refine .readsOn _ hdecides fun ts => ?_
    rw [readRange, if_pos ht]
    rfl
  · exact .leaves _ (decides_ok Width.one) fun ts => by rw [readRange, if_neg ht]

theorem decides_takeNet : Decides fun ts => .ok (takeNet ts) := by
  refine .of_meets (List.suffix_refl []) fun t => ?_
  by_cases ht : ∃ net, t.kind = .keyword (.net net)
  · obtain ⟨net, ht⟩ := ht
    exact .readsOn _ (decides_ok net) fun ts => by simp only [takeNet, ht]
  · refine .leaves _ (decides_ok NetKind.wire) fun ts => ?_
    rw [takeNet]
    split
    · next net hnet => exact absurd ⟨net, hnet⟩ ht
    · rfl

theorem decides_skipSign : Decides fun ts => .ok ((), skipSign ts) := by
  refine .of_meets (List.suffix_refl []) fun t => ?_
  by_cases ht : t.kind.isSign = true
  · exact .readsOn _ (decides_ok ()) fun ts => by rw [skipSign, if_pos ht]
  · exact .leaves _ (decides_ok ()) fun ts => by rw [skipSign, if_neg ht]

/-- A range is read where no data type stands. -/
theorem decides_refuseType (direction : Direction) :
    Decides fun ts => refuseType direction ts >>= fun _ => readRange ts := by
  refine .of_meets (List.suffix_refl []) fun t => ?_
  by_cases ht : t.kind.isParameterType = true
  · refine .refuses (.unexpected (.portType direction) (some t)) (by simp [Fault.last?])
      fun ts => ?_
    rw [refuseType, if_pos ht]
    rfl
  · refine .leaves _ decides_readRange fun ts => ?_
    rw [refuseType, if_neg ht]
    rfl

theorem decides_readPortHead (opener : Token) : Decides (readPortHead opener) := by
  refine .of_meets (within_nil_error rfl) fun t => ?_
  by_cases ht : ∃ direction, t.kind = .keyword (.direction direction)
  · obtain ⟨direction, ht⟩ := ht
    have hdecides : Decides fun ts => .ok (takeNet ts) >>= fun net =>
        .ok ((), skipSign net.2) >>= fun typed =>
          (refuseType direction typed.2 >>= fun _ => readRange typed.2) >>= fun width =>
            .ok ((⟨direction, net.1, width.1⟩ : PortHead), width.2) := by
      refine decides_takeNet.bind fun net => ?_
      dsimp only
      refine decides_skipSign.bind fun _ => ?_
      exact (decides_refuseType direction).map fun width => (⟨direction, net, width⟩ : PortHead)
    refine .readsOn _ hdecides fun ts => ?_
    simp only [readPortHead, ht]
    show _ = (refuseType direction (skipSign (takeNet ts).2) >>= fun _ => _) >>= fun width => _
    cases refuseType direction (skipSign (takeNet ts).2) <;> rfl
  · refine .refuses (.unexpected .portDirection (some t)) (by simp [Fault.last?]) fun ts => ?_
    rw [readPortHead]
    split
    · next direction hdirection => exact absurd ⟨direction, hdirection⟩ ht
    · rfl

section Names

variable {direction : Direction} {t : Token}

theorem readPortNames_of_ne_identifier (ht : t.kind ≠ .identifier) (ts : List Token) :
    readPortNames direction (t :: ts) = .error (.unexpected (.portName direction) (some t)) := by
  rcases ts with _ | ⟨separator, _ | ⟨next, rest⟩⟩ <;> simp only [readPortNames, if_neg ht]

theorem readPortNames_of_ne_comma {separator : Token} (ht : t.kind = .identifier)
    (hseparator : separator.kind ≠ .comma) (ts : List Token) :
    readPortNames direction (t :: separator :: ts) = .ok ([t.text], separator :: ts) := by
  rcases ts with _ | ⟨next, rest⟩
  · rw [readPortNames, if_pos ht]
  · rw [readPortNames, if_pos ht, if_neg fun h => hseparator h.1]

theorem within_readPortNames (ts : List Token) : Within ts (readPortNames direction ts) := by
  fun_induction readPortNames direction ts with
  | case1 => exact within_nil_error rfl
  | case2 => exact List.nil_suffix
  | case3 => simp [Within, Fault.last?]
  | case4 t t' => exact List.suffix_cons t [t']
  | case5 => simp [Within, Fault.last?]
  | case6 t separator next rest _ _ ih =>
    exact (ih.map (t.text :: ·)).mono
      ((List.suffix_cons separator _).trans (List.suffix_cons t _))
  | case7 t separator next rest => exact List.suffix_cons t (separator :: next :: rest)
  | case8 => simp [Within, Fault.last?]

/-- Behind the first name the reader stops or goes on with the names behind a comma. -/
theorem within_behind_name (ht : t.kind = .identifier) (ts : List Token) :
    Within ts (readPortNames direction (t :: ts)) := by
  rcases ts with _ | ⟨separator, _ | ⟨next, rest⟩⟩
  · rw [readPortNames, if_pos ht]
    exact List.suffix_refl []
  · rw [readPortNames, if_pos ht]
    exact List.suffix_refl [separator]
  · rw [readPortNames, if_pos ht]
    split
    · exact ((within_readPortNames _).map (t.text :: ·)).mono (List.suffix_cons separator _)
    · exact List.suffix_refl _

/-- Behind a comma at the end of the common tokens the names go on or end. -/
theorem names_behind_comma {comma : Token} (ht : t.kind = .identifier)
    (hcomma : comma.kind = .comma) (r r' : List Token) :
    ReadAlike r r' (readPortNames direction (t :: comma :: r))
        (readPortNames direction (t :: comma :: r')) ∨
      readPortNames direction (t :: comma :: r) = .ok ([t.text], comma :: r) := by
  rcases r with _ | ⟨next, rest⟩
  · right
    rw [readPortNames, if_pos ht]
  · by_cases hnext : next.kind = .identifier
    · left
      refine .reached ?_
      rw [readPortNames, if_pos ht, if_pos ⟨hcomma, hnext⟩]
      exact (within_readPortNames (next :: rest)).map (t.text :: ·)
    · right
      rw [readPortNames, if_pos ht, if_neg fun h => hnext h.2]

theorem decidesToComma_readPortNames (direction : Direction) :
    DecidesToComma (readPortNames direction) := by
  refine ⟨within_readPortNames, fun p r r' => ?_⟩
  -- the cases are those of the reader, on the common tokens
  fun_induction readPortNames direction p with
  | case1 => exact Or.inl (.reached (within_readPortNames r))
  | case2 t ht => exact Or.inl (.reached (within_behind_name ht r))
  | case3 t ht =>
    left
    simp only [List.cons_append, readPortNames_of_ne_identifier ht]
    exact .error _
  | case4 t separator ht =>
    show ReadAlike r r' (readPortNames direction (t :: separator :: r))
      (readPortNames direction (t :: separator :: r')) ∨ _
    -- here alone it matters what stands behind the common tokens
    by_cases hseparator : separator.kind = .comma
    · rcases names_behind_comma ht hseparator r r' with halike | hstops
      · exact Or.inl halike
      · exact Or.inr ⟨[t.text], separator, hseparator, hstops⟩
    · left
      rw [readPortNames_of_ne_comma ht hseparator, readPortNames_of_ne_comma ht hseparator]
      exact .ok [t.text] [separator]
  | case5 t separator ht =>
    left
    simp only [List.cons_append, readPortNames_of_ne_identifier ht]
    exact .error _
  | case6 t separator next rest ht hnext ih =>
    have hmore : ∀ ts, readPortNames direction (t :: separator :: next :: rest ++ ts) =
        readPortNames direction (next :: rest ++ ts) >>= fun s => .ok (t.text :: s.1, s.2) := by
      intro ts
      simp only [List.cons_append, readPortNames, if_pos ht, if_pos hnext]
      rfl
    rw [hmore, hmore]
    rcases ih with halike | ⟨names, comma, hcomma, hstops⟩
    · exact Or.inl (halike.map (t.text :: ·))
    · rw [hstops]
      exact Or.inr ⟨t.text :: names, comma, hcomma, rfl⟩
  | case7 t separator next rest ht hnext =>
    left
    simp only [List.cons_append, readPortNames, if_pos ht, if_neg hnext]
    exact .ok [t.text] (separator :: next :: rest)
  | case8 t separator next rest ht =>
    left
    simp only [List.cons_append, readPortNames_of_ne_identifier ht]
    exact .error _

end Names

section ToComma

variable {α β : Type} {read : List Token → Except Fault (α × List Token)}

/-- A reader that ends with one that decides to a comma decides to a comma. -/
theorem Decides.bindToComma {f : α × List Token → Except Fault (β × List Token)}
    (hread : Decides read) (hf : ∀ a, DecidesToComma fun ts => f (a, ts)) :
    DecidesToComma fun ts => read ts >>= f where
  within ts := (hread.within ts).bind fun s _ => (hf s.1).within s.2
  alike p r r' := by
    have halike := hread.alike p r r'
    revert halike
    generalize read (p ++ r) = x
    generalize read (p ++ r') = x'
    rintro (⟨a, q⟩ | fault | h)
    · exact (hf a).alike q r r'
    · exact Or.inl (.error fault)
    · exact Or.inl (.reached (h.bind fun s _ => (hf s.1).within s.2))

theorem DecidesToComma.map (hread : DecidesToComma read) (g : α → β) :
    DecidesToComma fun ts => read ts >>= fun s => .ok (g s.1, s.2) where
  within ts := (hread.within ts).map g
  alike p r r' := by
    rcases hread.alike p r r' with halike | ⟨a, comma, hcomma, hstops⟩
    · exact Or.inl (halike.map g)
    · exact Or.inr ⟨g a, comma, hcomma, by rw [hstops]; rfl⟩

end ToComma

theorem decidesToComma_readPortDeclaration (opener : Token) :
    DecidesToComma (readPortDeclaration opener) := by
  show DecidesToComma fun ts => readPortHead opener ts >>= fun head =>
    readPortNames head.1.direction head.2 >>= fun names =>
      .ok (names.1.map head.1.port, names.2)
  refine (decides_readPortHead opener).bindToComma fun head => ?_
  exact (decidesToComma_readPortNames head.direction).map fun names => names.map head.port

/-- The ports of a list, by declarations. No declaration tells the next one anything. -/
def portReader (opener : Token) : ListReader Unit (List Port) (List Port) where
  item _ := readPortDeclaration opener
  read _ := readPorts opener
  separates k := k = .comma ∨ k = .semicolon
  decidableSeparates k := inferInstanceAs (Decidable (k = .comma ∨ k = .semicolon))
  unclosed := .unclosed .ports opener
  expected := .portSeparator
  next _ := ()
  one ports := ports
  more := List.append
  read_eq _ := readPorts_eq opener
  unclosed_last? := rfl
  separates_comma := Or.inl rfl
  item_decides _ := decidesToComma_readPortDeclaration opener
  item_lt _ _ _ := length_lt_of_readPortDeclaration

theorem decides_readPortList (name : String) : Decides (readPortList name) := by
  have hdecides : Decides fun ts => takeToken .leftParen (.portList name) ts >>= fun opener =>
      orEmpty (readPorts opener.1) [] opener.2 := by
    refine (decides_takeToken .leftParen (.portList name)).bind fun opener => ?_
    exact ((portReader opener).decides ()).orEmpty []
  exact hdecides

/-! ### Openings of modules -/

/-- A header that is no prototype, as the result of a reader. -/
def readHeader (before : Option TokenKind) (ts : List Token) :
    Except Fault ((Token × Token) × List Token) :=
  match findHeader? before ts with
  | none => .error .noHeader
  | some (start, name, rest) => .ok ((start, name), rest)

section Header

variable {before : Option TokenKind} {start name : Token}

theorem readHeader_of_header (rest : List Token)
    (h : start.kind = .keyword .moduleStart ∧ name.kind.isWord ∧
      before ≠ some (.keyword .prototype)) :
    readHeader before (start :: name :: rest) = .ok ((start, name), rest) := by
  rw [readHeader, findHeader?, if_pos h]

theorem readHeader_of_not_header (rest : List Token)
    (h : ¬(start.kind = .keyword .moduleStart ∧ name.kind.isWord ∧
      before ≠ some (.keyword .prototype))) :
    readHeader before (start :: name :: rest) = readHeader (some start.kind) (name :: rest) := by
  rw [readHeader, findHeader?, if_neg h]
  rfl

theorem within_readHeader (before : Option TokenKind) (ts : List Token) :
    Within ts (readHeader before ts) := by
  fun_induction findHeader? before ts with
  | case1 before start name rest hat =>
    rw [readHeader_of_header rest hat]
    exact (List.suffix_cons name rest).trans (List.suffix_cons start _)
  | case2 before start name rest hat ih =>
    rw [readHeader_of_not_header rest hat]
    exact ih.mono (List.suffix_cons start _)
  | case3 ts before hshort =>
    rcases ts with _ | ⟨t, _ | ⟨t', rest⟩⟩
    · exact within_nil_error rfl
    · simp [Within, readHeader, findHeader?, Fault.last?]
    · exact absurd rfl (hshort _ _ _)

/-- Whether a token starts a header is seen at the token behind it. -/
theorem within_readHeader_cons (before : Option TokenKind) (start : Token) (ts : List Token) :
    Within ts (readHeader before (start :: ts)) := by
  rcases ts with _ | ⟨name, rest⟩
  · simp [Within, readHeader, findHeader?, Fault.last?]
  · by_cases hat : start.kind = .keyword .moduleStart ∧ name.kind.isWord ∧
        before ≠ some (.keyword .prototype)
    · rw [readHeader_of_header rest hat]
      exact List.suffix_cons name rest
    · rw [readHeader_of_not_header rest hat]
      exact within_readHeader _ _

theorem decides_readHeader (before : Option TokenKind) : Decides (readHeader before) := by
  refine ⟨within_readHeader before, fun p r r' => ?_⟩
  fun_induction findHeader? before p with
  | case1 before start name rest hat =>
    simp only [List.cons_append, readHeader_of_header _ hat]
    exact .ok (start, name) rest
  | case2 before start name rest hat ih =>
    simp only [List.cons_append, readHeader_of_not_header _ hat]
    exact ih
  | case3 p before hshort =>
    -- the last common token may start a header in one text only
    rcases p with _ | ⟨t, _ | ⟨t', rest⟩⟩
    · exact .reached (within_readHeader before r)
    · exact .reached (within_readHeader_cons before t r)
    · exact absurd rfl (hshort _ _ _)

end Header

/-- What is read of a module in front of its body. -/
structure Opening where
  start : Token
  name : Token
  parameters : List Parameter
  ports : List Port

/-- The interface of a module with this opening. -/
def Opening.interface (o : Opening) : Interface :=
  ⟨o.name.text, o.name.span, o.ports, o.parameters⟩

/-- The opening of the first module, and the tokens behind its port list. -/
def readOpening (ts : List Token) : Except Fault (Opening × List Token) :=
  readHeader none ts >>= fun header =>
    readParameterList header.2 >>= fun parameters =>
      readPortList header.1.2.text parameters.2 >>= fun ports =>
        .ok (⟨header.1.1, header.1.2, parameters.1, ports.1⟩, ports.2)

/-- **What is read of a module is decided by the tokens that are looked at.** -/
theorem decides_readOpening : Decides readOpening := by
  refine (decides_readHeader none).bind fun header => ?_
  dsimp only
  refine decides_readParameterList.bind fun parameters => ?_
  exact (decides_readPortList header.2.text).map fun ports =>
    (⟨header.1, header.2, parameters, ports⟩ : Opening)

/-- The interface is that of the opening, if the module ends behind it. -/
theorem ofTokens_eq (ts : List Token) :
    Interface.ofTokens ts = readOpening ts >>= fun opening =>
      if opening.2.any (·.kind = .keyword .moduleEnd) then .ok opening.1.interface
      else .error (.noEnd opening.1.start opening.1.name) := by
  rw [Interface.ofTokens, readOpening, readHeader]
  rcases findHeader? none ts with _ | ⟨start, name, rest⟩
  · rfl
  · show readParameterList rest >>= _ = readParameterList rest >>= _ >>= _
    rcases readParameterList rest with fault | ⟨parameters, rest⟩
    · rfl
    · show readPortList name.text rest >>= _ = readPortList name.text rest >>= _ >>= _
      rcases readPortList name.text rest with fault | ⟨ports, rest⟩ <;> rfl

end HdlModule
