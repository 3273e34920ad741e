import HdlModule.Proofs.Lexing.Lexed
import HdlModule.Token.Basic

/-!
# Layout and lexemes

Blanks between lexemes and the wording of line comments do not matter: the lexemes other than
blanks and comments stay as they are. A blank ends any lexeme in front of it but a blank, a
comment and a broken string, and no lexeme reaches over it. Blanks behind a comment belong to the
comment, up to the end of its line.

A lexeme may look at several characters behind it, as `8` does in `8'q`, where it looks for a
base. So an edit further behind has to be far enough away, or of a kind that puts an end to what
the lexeme looks for. Blanks and slashes do so.

## Main definitions

* `isBarrier c`: the character is a blank or a slash
* `significant ls`: the lexemes without blanks and comments
* `LayoutEdit cs cs'`: blanks are inserted between two lexemes, or a comment is worded anew

## Main results

* `Leads.of_behind`: a lexeme ends where it did if the text behind it is changed so
* `Leads.lf_not_mem`: an LF stands in blanks only
* `LayoutEdit.significant_eq`: an edit of the layout keeps the significant lexemes
-/

namespace HdlModule

section Behind

variable {c b : Char} {ds pre rest rest' word : List Char} {k : TokenKind}

/-! ### Barriers -/

/-- Blanks and slashes. -/
def isBarrier (c : Char) : Bool := isSpace c || c == '/'

theorem isBarrier_of_isSpace (h : isSpace c = true) : isBarrier c = true := by
  rw [isBarrier, h, Bool.true_or]

/-- The characters hold no blank and no slash. -/
def Unbarred (word : List Char) : Prop := ∀ x ∈ word, isBarrier x = false

theorem isBarrier_of_class {p : Char → Bool} (hblank : p ' ' = false) (htab : p '\t' = false)
    (hcr : p '\r' = false) (hlf : p '\n' = false) (hff : p '\x0c' = false)
    (hslash : p '/' = false) (h : p c = true) : isBarrier c = false := by
  have hne : c ≠ '/' := by
    rintro rfl
    exact Bool.eq_false_iff.1 hslash h
  rw [isBarrier, isSpace_of_class hblank htab hcr hlf hff h, Bool.false_or]
  exact beq_eq_false_iff_ne.2 hne

theorem isBarrier_of_isBasedDigit (h : isBasedDigit c = true) : isBarrier c = false :=
  isBarrier_of_class rfl rfl rfl rfl rfl rfl h

theorem isBarrier_of_isBaseLetter (h : isBaseLetter c = true) : isBarrier c = false :=
  isBarrier_of_class rfl rfl rfl rfl rfl rfl h

theorem isBarrier_of_isSignLetter (h : isSignLetter c = true) : isBarrier c = false :=
  isBarrier_of_class rfl rfl rfl rfl rfl rfl h

/-- The tail of a based literal holds no blank and no slash. -/
theorem BasedTail.unbarred (h : BasedTail word) : Unbarred word := by
  cases h with
  | unsigned hbase hdigit hds =>
    simp only [Unbarred, List.forall_mem_cons]
    exact ⟨isBarrier_of_isBaseLetter hbase, isBarrier_of_isBasedDigit hdigit,
      fun x hx => isBarrier_of_isBasedDigit (hds x hx)⟩
  | signed hsign hbase hdigit hds =>
    simp only [Unbarred, List.forall_mem_cons]
    exact ⟨isBarrier_of_isSignLetter hsign, isBarrier_of_isBaseLetter hbase,
      isBarrier_of_isBasedDigit hdigit, fun x hx => isBarrier_of_isBasedDigit (hds x hx)⟩

/-- What holds no barrier and stands in front of a text with one stands in front of the
barrier. -/
theorem Unbarred.prefix_of_barrier (hword : Unbarred word) (hb : isBarrier b = true)
    (h : word <+: pre ++ b :: rest) : word <+: pre := by
  have hpre : pre ++ [b] <+: pre ++ b :: rest := ⟨rest, by simp⟩
  rcases List.prefix_or_prefix_of_prefix h hpre with hword' | hreach
  · rcases List.prefix_concat_iff.1 hword' with heq | hword'
    · have hbarred := hword b (by rw [heq]; simp)
      rw [hb] at hbarred
      cases hbarred
    · exact hword'
  · have hbarred := hword b (hreach.subset (by simp))
    rw [hb] at hbarred
    cases hbarred

/-! ### What a lexeme looks for behind it -/

/-- The text starts with the same character as another one, or with a blank. -/
def StartsAlike (rest rest' : List Char) : Prop :=
  rest.head? = rest'.head? ∨ ∃ b, rest'.head? = some b ∧ isSpace b = true

/-- What blanks fulfil is fulfilled by the first character. -/
theorem StartsAlike.forall_head? {P : Char → Prop} (h : StartsAlike rest rest')
    (hP : ∀ x, isSpace x = true → P x) (hrest : ∀ x ∈ rest.head?, P x) :
    ∀ x ∈ rest'.head?, P x := by
  rcases h with hhead | ⟨b, hb, hspace⟩
  · rwa [← hhead]
  · intro x hx
    obtain rfl : b = x := by rwa [hb, Option.mem_some_iff] at hx
    exact hP b hspace

/-- A class without blanks does not go on where it did not. -/
theorem StartsAlike.stops {p : Char → Bool} (h : StartsAlike rest rest')
    (hp : ∀ x, p x = true → isSpace x = false) (hrest : Stops p rest) : Stops p rest' := by
  refine h.forall_head? (fun x hx => ?_) hrest
  refine Bool.eq_false_iff.2 fun hpx => ?_
  rw [hp x hpx] at hx
  cases hx

/-- A character that is no blank does not follow where it did not. -/
theorem StartsAlike.head?_ne {x : Char} (h : StartsAlike rest rest') (hx : isSpace x = false)
    (hrest : ∀ y ∈ rest.head?, y ≠ x) : ∀ y ∈ rest'.head?, y ≠ x := by
  refine h.forall_head? ?_ hrest
  rintro y hy rfl
  rw [hx] at hy
  cases hy

/-- No based literal goes on where none went on, if no more unbarred words stand there. -/
theorem StopsBased.of_unbarred (hs : StopsBased rest)
    (h : ∀ word, Unbarred word → word <+: rest' → word <+: rest) : StopsBased rest' :=
  fun tail hprefix htail => hs tail (h tail htail.unbarred hprefix) htail

/-- **A lexeme ends where it did** if the text behind it starts with the same character as before,
or with a blank, and has no unbarred words in front that were not there before. In front of a
blank this is not so for blanks and comments; and a broken string needs two characters. -/
theorem Leads.of_behind (h : Leads c ds rest k) (halike : StartsAlike rest rest')
    (htrivia : k.isTrivia = true → rest.head? = rest'.head?)
    (hwords : ∀ word, Unbarred word → word <+: rest' → word <+: rest)
    (hbroken : k = .invalid → c = '\x22' → rest.take 2 = rest'.take 2) : Leads c ds rest' k := by
  cases h with
  | space hc hds hrest => exact .space hc hds (hrest.congr (htrivia rfl))
  | word hc hds hrest =>
    exact .word hc hds (halike.stops (fun x => isSpace_of_class rfl rfl rfl rfl rfl) hrest)
  | integer hc hds hrest hbased =>
    refine .integer hc hds (halike.stops (fun x => isSpace_of_class rfl rfl rfl rfl rfl) hrest) ?_
    -- the apostrophe is no barrier, so it followed before, and what it looks for did not
    rintro tail' rfl
    have hapostrophe : Unbarred ['\x27'] := List.forall_mem_singleton.2 rfl
    obtain ⟨tail, rfl⟩ := hwords _ hapostrophe ⟨tail', rfl⟩
    refine (hbased tail rfl).of_unbarred fun word hword hprefix => ?_
    refine (List.prefix_cons_inj '\x27').1 (hwords _ ?_ ((List.prefix_cons_inj '\x27').2 hprefix))
    exact List.forall_mem_cons.2 ⟨rfl, hword⟩
  | sized hc hds htail hrest =>
    exact .sized hc hds htail (halike.stops (fun x => isSpace_of_class rfl rfl rfl rfl rfl) hrest)
  | unsized hds hrest =>
    exact .unsized hds (halike.stops (fun x => isSpace_of_class rfl rfl rfl rfl rfl) hrest)
  | apostrophe hrest => exact .apostrophe (hrest.of_unbarred hwords)
  | string hds => exact .string hds
  | broken hds hrest hquote =>
    have htake := hbroken rfl rfl
    exact .broken hds (hrest.congr htake) (head?_eq_of_take htake ▸ hquote)
  | directive hd hds hrest =>
    exact .directive hd hds (halike.stops (fun x => isSpace_of_class rfl rfl rfl rfl rfl) hrest)
  | backtick hrest =>
    exact .backtick (halike.stops (fun x => isSpace_of_class rfl rfl rfl rfl rfl) hrest)
  | comment hds hrest => exact .comment hds (hrest.congr (htrivia rfl))
  | blockComment => exact .blockComment
  | slash hrest =>
    refine .slash fun x hx => ⟨?_, ?_⟩
    · exact halike.head?_ne rfl (fun y hy => (hrest y hy).1) x hx
    · exact halike.head?_ne rfl (fun y hy => (hrest y hy).2) x hx
  | doubleColon => exact .doubleColon
  | colon hrest => exact .colon (halike.head?_ne rfl hrest)
  | alone hc => exact .alone hc

/-- A lexeme ends where it did if the text behind it changes from a barrier on, and not with the
next character. -/
theorem Leads.of_barrier (h : Leads c ds (pre ++ rest) k) (hb : isBarrier b = true)
    (hhead : (pre ++ rest).head? = (pre ++ b :: rest').head?)
    (hbroken : k = .invalid → c = '\x22' → (pre ++ rest).take 2 = (pre ++ b :: rest').take 2) :
    Leads c ds (pre ++ b :: rest') k :=
  h.of_behind (Or.inl hhead) (fun _ => hhead)
    (fun _ hword hprefix => (hword.prefix_of_barrier hb hprefix).trans (List.prefix_append ..))
    hbroken

end Behind

/-! ### Significant lexemes -/

/-- The lexemes without blanks and comments. -/
def significant (ls : List Lexeme) : List Lexeme := ls.filter fun l => !l.kind.isTrivia

@[simp]
theorem significant_append (ls ls' : List Lexeme) :
    significant (ls ++ ls') = significant ls ++ significant ls' := List.filter_append ..

theorem significant_cons (l : Lexeme) (ls : List Lexeme) :
    significant (l :: ls) = significant [l] ++ significant ls :=
  significant_append [l] ls

theorem significant_of_isTrivia {l : Lexeme} (h : l.kind.isTrivia = true) :
    significant [l] = [] := by
  simp [significant, h]

/-- Tokens are left out by what their lexemes are. -/
theorem map_toLexeme_filter (ts : List Token) :
    (ts.filter fun t => !t.kind.isTrivia).map Token.toLexeme =
      significant (ts.map Token.toLexeme) := by
  rw [significant, List.filter_map]
  rfl

section Lexed

variable {cs blanks : List Char} {ls ls' : List Lexeme} {l : Lexeme}

theorem Lexed.flatMap_chars (h : Lexed cs ls) : ls.flatMap Lexeme.chars = cs := by
  rw [← h.lexemes_eq, flatMap_chars_lexemes]

theorem Lexed.exists_chars_eq_cons (h : Lexed cs (l :: ls)) : ∃ c ds, l.chars = c :: ds := by
  cases h with
  | cons hleads hrest => exact ⟨_, _, rfl⟩

/-- A token is the lexeme that leads the text at its place. -/
theorem Lexed.exists_leads {cs : List Char} {ls : List Lexeme} (h : Lexed cs ls) {offset : Nat}
    {t : Token} (ht : t ∈ locate offset ls) :
    ∃ pre c ds rest, cs = pre ++ c :: (ds ++ rest) ∧ offset + byteLength pre = t.start ∧
      t.chars = c :: ds ∧ Leads c ds rest t.kind := by
  induction h generalizing offset with
  | nil => cases ht
  | @cons c ds rest k ls hleads _ ih =>
    rcases List.mem_cons.1 ht with rfl | ht
    · exact ⟨[], c, ds, rest, rfl, rfl, rfl, hleads⟩
    · obtain ⟨pre, c', ds', rest', rfl, hstart, hchars, hleads'⟩ := ih ht
      refine ⟨c :: (ds ++ pre), c', ds', rest', by simp, ?_, hchars, hleads'⟩
      rw [← hstart]
      simp only [byteLength_cons, byteLength_append]
      omega

/-- A text starts with one lexeme only. -/
theorem Leads.unique {c : Char} {ds rest ds' rest' : List Char} {k k' : TokenKind}
    (h : Leads c ds rest k) (h' : Leads c ds' rest' k') (heq : ds ++ rest = ds' ++ rest') :
    ds = ds' ∧ rest = rest' ∧ k = k' := by
  have hfound := leading_of_leads h
  rw [heq, leading_of_leads h', Prod.mk.injEq] at hfound
  obtain ⟨hds, hrest⟩ := List.append_inj heq hfound.2.symm
  exact ⟨hds, hrest, hfound.1.symm⟩

/-- A lexeme that starts with a blank is a run of blanks. -/
theorem Leads.blanks_of_isSpace {c : Char} {ds rest : List Char} {k : TokenKind}
    (h : Leads c ds rest k) (hc : isSpace c = true) :
    k = .whitespace ∧ (∀ d ∈ ds, isSpace d = true) ∧ Stops isSpace rest := by
  obtain ⟨es, tail, heq, hes, htail⟩ := exists_run isSpace (ds ++ rest)
  obtain ⟨rfl, rfl, rfl⟩ := h.unique (.space hc hes htail) heq
  exact ⟨rfl, hes, htail⟩

/-- Lexemes that are not significant are runs of blanks and comments. -/
theorem Leads.cases_of_isTrivia {c : Char} {ds rest : List Char} {k : TokenKind}
    (h : Leads c ds rest k) (hk : k.isTrivia = true) :
    (isSpace c = true ∧ (∀ d ∈ ds, isSpace d = true) ∧ Stops isSpace rest) ∨
      c = '/' ∧ ∃ body, ds = '/' :: body ∧ (∀ d ∈ body, (!isLineEnd d) = true) ∧
        Stops (!isLineEnd ·) rest := by
  cases h with
  | space hc hds hrest => exact Or.inl ⟨hc, hds, hrest⟩
  | comment hds hrest => exact Or.inr ⟨rfl, _, rfl, hds, hrest⟩
  | word _ _ _ =>
    unfold wordKind at hk
    split at hk <;> cases hk
  | alone _ =>
    unfold punctuation at hk
    split at hk <;> cases hk
  | _ => cases hk

/-! ### Line feeds in lexemes -/

section LineFeeds

variable {c : Char} {ds rest : List Char} {k : TokenKind}

theorem ne_of_class {p : Char → Bool} {b : Char} (hc : p c = true) (hb : p b = false) : b ≠ c := by
  rintro rfl
  rw [hb] at hc
  cases hc

theorem not_mem_of_class {p : Char → Bool} {b : Char} (hds : ∀ d ∈ ds, p d = true)
    (hb : p b = false) : b ∉ ds :=
  fun hmem => ne_of_class (hds _ hmem) hb rfl

theorem BasedTail.lf_not_mem {tail : List Char} (h : BasedTail tail) : '\n' ∉ tail := by
  intro hmem
  have hbarred := h.unbarred _ hmem
  cases hbarred

theorem StringItems.lf_not_mem (h : StringItems ds) : '\n' ∉ ds := by
  induction h with
  | nil => exact List.not_mem_nil
  | cons hitem _ ih =>
    rw [List.mem_append, not_or]
    refine ⟨?_, ih⟩
    cases hitem with
    | @plain d hquote hslash hend =>
      rw [List.mem_singleton]
      rintro rfl
      cases hend
    | @escaped d hd => simp [Ne.symm hd]

/-- **An LF stands in blanks only.** -/
theorem Leads.lf_not_mem (h : Leads c ds rest k) (hk : k ≠ .whitespace) : '\n' ∉ c :: ds := by
  rw [List.mem_cons, not_or]
  cases h with
  | space => exact absurd rfl hk
  | word hc hds => exact ⟨ne_of_class hc rfl, not_mem_of_class hds rfl⟩
  | integer hc hds => exact ⟨ne_of_class hc rfl, not_mem_of_class hds rfl⟩
  | sized hc hds htail =>
    refine ⟨ne_of_class hc rfl, ?_⟩
    rw [List.mem_append, List.mem_cons, not_or, not_or]
    exact ⟨not_mem_of_class hds rfl, by decide, htail.lf_not_mem⟩
  | unsized hds => exact ⟨by decide, hds.lf_not_mem⟩
  | apostrophe => exact ⟨by decide, List.not_mem_nil⟩
  | string hds =>
    refine ⟨by decide, ?_⟩
    rw [List.mem_append, not_or]
    exact ⟨hds.lf_not_mem, by decide⟩
  | broken hds => exact ⟨by decide, hds.lf_not_mem⟩
  | directive hd hds =>
    rw [List.mem_cons, not_or]
    exact ⟨by decide, ne_of_class hd rfl, not_mem_of_class hds rfl⟩
  | backtick => exact ⟨by decide, List.not_mem_nil⟩
  | comment hds =>
    refine ⟨by decide, ?_⟩
    exact not_mem_of_class (List.forall_mem_cons.2 ⟨rfl, hds⟩) rfl
  | blockComment => exact ⟨by decide, by decide⟩
  | slash => exact ⟨by decide, List.not_mem_nil⟩
  | doubleColon => exact ⟨by decide, by decide⟩
  | colon => exact ⟨by decide, List.not_mem_nil⟩
  | alone hc =>
    refine ⟨?_, List.not_mem_nil⟩
    rintro rfl
    cases hc.not_space

/-- A lexeme with an LF in it is a run of blanks. -/
theorem Leads.blanks_of_lf (h : Leads c ds rest k) (hlf : '\n' ∈ c :: ds) :
    ∀ d ∈ c :: ds, isSpace d = true := by
  have hk : k = .whitespace := Decidable.byContradiction fun hk => h.lf_not_mem hk hlf
  obtain ⟨hc, hds, -⟩ | ⟨rfl, body, rfl, hbody, -⟩ := h.cases_of_isTrivia (by rw [hk]; rfl)
  · exact List.forall_mem_cons.2 ⟨hc, hds⟩
  · have hcomment := not_mem_of_class (b := '\n') hbody rfl
    exact absurd hlf (by simpa using hcomment)

end LineFeeds

/-! ### Blanks between lexemes -/

/-- Blanks at the start of a text are a lexeme of their own, or become one with the blanks that
follow. -/
theorem Lexed.blanks_append (h : Lexed cs ls) (hblanks : ∀ x ∈ blanks, isSpace x = true) :
    ∃ ls', Lexed (blanks ++ cs) ls' ∧ significant ls' = significant ls := by
  cases blanks with
  | nil => exact ⟨ls, h, rfl⟩
  | cons b bs =>
    obtain ⟨hb, hbs⟩ := List.forall_mem_cons.1 hblanks
    by_cases hstop : Stops isSpace cs
    · exact ⟨_, .cons (.space hb hbs hstop) h, rfl⟩
    · cases h with
      | nil => exact absurd stops_nil hstop
      | @cons c ds rest k ls hleads hrest =>
        rw [stops_cons, Bool.not_eq_false] at hstop
        obtain ⟨rfl, hds, hrestStop⟩ := hleads.blanks_of_isSpace hstop
        have hrun : ∀ x ∈ bs ++ c :: ds, isSpace x = true := by
          simpa [or_imp, forall_and, hstop] using ⟨hbs, hds⟩
        refine ⟨⟨.whitespace, b :: (bs ++ c :: ds)⟩ :: ls, ?_, rfl⟩
        have hlexed := Lexed.cons (.space hb hrun hrestStop) hrest
        rwa [List.append_assoc, List.cons_append] at hlexed

/-- Blanks behind a comment belong to it up to the end of the line. -/
theorem Lexed.comment_blanks {body : List Char} (h : Lexed cs ls)
    (hbody : ∀ d ∈ body, (!isLineEnd d) = true) (hstop : Stops (!isLineEnd ·) cs)
    (hblanks : ∀ x ∈ blanks, isSpace x = true) :
    ∃ ls', Lexed ('/' :: ('/' :: body ++ (blanks ++ cs))) ls' ∧
      significant ls' = significant ls := by
  obtain ⟨line, more, rfl, hline, hmore⟩ := exists_run (!isLineEnd ·) blanks
  obtain ⟨ls', hls', hsignificant⟩ :=
    h.blanks_append fun x hx => hblanks x (List.mem_append_right line hx)
  have hstop' : Stops (!isLineEnd ·) (more ++ cs) := by
    cases more with
    | nil => exact hstop
    | cons d more => exact stops_cons.2 (stops_cons.1 hmore)
  have hrun : ∀ d ∈ body ++ line, (!isLineEnd d) = true := by
    intro d hd
    exact (List.mem_append.1 hd).elim (hbody d) (hline d)
  refine ⟨⟨.lineComment, '/' :: '/' :: (body ++ line)⟩ :: ls', ?_, hsignificant⟩
  have hlexed := Lexed.cons (.comment hrun hstop') hls'
  simpa using hlexed

/-- A significant lexeme other than a broken string ends in front of a blank. -/
theorem Leads.before_blank {b c : Char} {ds rest rest' : List Char} {k : TokenKind}
    (h : Leads c ds rest k) (hk : k.isTrivia = false) (hb : isSpace b = true)
    (hquote : ¬ (k = .invalid ∧ c = '\x22')) : Leads c ds (b :: rest') k := by
  refine h.of_behind (Or.inr ⟨b, rfl, hb⟩) (fun htrivia => ?_) (fun word hword hprefix => ?_)
    fun hinvalid hc => absurd ⟨hinvalid, hc⟩ hquote
  · rw [hk] at htrivia
    cases htrivia
  · have hprefix' : word <+: [] ++ b :: rest' := hprefix
    exact (hword.prefix_of_barrier (isBarrier_of_isSpace hb) hprefix').trans List.nil_prefix

/-- Whether the lexeme is a string that is broken off. -/
def Lexeme.isBrokenString (l : Lexeme) : Bool := l.kind = .invalid && l.chars.head? = some '\x22'

/-- Blanks behind the first lexeme of a text. -/
theorem Lexed.blanks_behind {b c : Char} {ds : List Char} {k : TokenKind} (hleads : Leads c ds cs k)
    (h : Lexed cs ls) (hblanks : ∀ x ∈ b :: blanks, isSpace x = true)
    (hstring : Lexeme.isBrokenString ⟨k, c :: ds⟩ = false) :
    ∃ ls', Lexed (c :: (ds ++ (b :: blanks ++ cs))) ls' ∧
      significant ls' = significant (⟨k, c :: ds⟩ :: ls) := by
  cases hk : k.isTrivia with
  | false =>
    obtain ⟨ls', hls', hsignificant⟩ := h.blanks_append hblanks
    have hquote : ¬ (k = .invalid ∧ c = '\x22') := by
      rintro ⟨rfl, rfl⟩
      cases hstring
    refine ⟨⟨k, c :: ds⟩ :: ls', .cons (hleads.before_blank hk ?_ hquote) hls', ?_⟩
    · exact hblanks b List.mem_cons_self
    · rw [significant_cons, hsignificant, ← significant_cons]
  | true =>
    have hnone : significant (⟨k, c :: ds⟩ :: ls) = significant ls := by
      rw [significant_cons, significant_of_isTrivia hk, List.nil_append]
    rw [hnone]
    rcases hleads.cases_of_isTrivia hk with ⟨hc, hds, hstop⟩ | ⟨rfl, body, rfl, hbody, hstop⟩
    · have hrun : ∀ x ∈ ds ++ b :: blanks, isSpace x = true := by
        intro x hx
        exact (List.mem_append.1 hx).elim (hds x) (hblanks x)
      refine ⟨⟨.whitespace, c :: (ds ++ b :: blanks)⟩ :: ls, ?_, rfl⟩
      have hlexed := Lexed.cons (.space hc hrun hstop) h
      rwa [List.append_assoc] at hlexed
    · exact h.comment_blanks hbody hstop hblanks

/-- **Blanks between two lexemes** leave the significant lexemes, if no string is broken off. -/
theorem Lexed.insert_blanks {b : Char} (h : Lexed cs (ls ++ ls'))
    (hblanks : ∀ x ∈ b :: blanks, isSpace x = true)
    (hstrings : ∀ l ∈ ls, l.isBrokenString = false) :
    ∃ ls'', Lexed (ls.flatMap Lexeme.chars ++ (b :: blanks ++ ls'.flatMap Lexeme.chars)) ls'' ∧
      significant ls'' = significant (ls ++ ls') := by
  induction ls generalizing cs with
  | nil =>
    rw [List.nil_append] at h
    rw [h.flatMap_chars]
    exact h.blanks_append hblanks
  | cons l ls ih =>
    obtain ⟨hstring, hstringsBehind⟩ := List.forall_mem_cons.1 hstrings
    rw [List.cons_append] at h
    cases h with
    | @cons c ds rest k _ hleads hrest =>
      have hchars := hrest.flatMap_chars
      rw [List.flatMap_append] at hchars
      cases ls with
      | nil =>
        obtain rfl : ls'.flatMap Lexeme.chars = rest := hchars
        simpa using Lexed.blanks_behind hleads hrest hblanks hstring
      | cons next ls =>
        obtain ⟨ls'', hls'', hsignificant⟩ := ih hrest hstringsBehind
        obtain ⟨x, more, hnext⟩ := hrest.exists_chars_eq_cons
        have hleads' : Leads c ds ((next :: ls).flatMap Lexeme.chars ++
            b :: (blanks ++ ls'.flatMap Lexeme.chars)) k := by
          rw [← hchars] at hleads
          refine hleads.of_barrier (isBarrier_of_isSpace (hblanks b List.mem_cons_self)) ?_ ?_
          · rw [List.flatMap_cons, hnext]
            rfl
          · rintro rfl rfl
            cases hstring
        refine ⟨⟨k, c :: ds⟩ :: ls'', ?_, ?_⟩
        · have hlexed := Lexed.cons hleads' hls''
          simpa using hlexed
        · rw [significant_cons, hsignificant, ← significant_cons]
          rfl

/-- A comment may be worded anew. -/
theorem Lexed.reword {body body' : List Char}
    (h : Lexed cs (ls ++ ⟨.lineComment, '/' :: '/' :: body⟩ :: ls'))
    (hbody' : ∀ x ∈ body', (!isLineEnd x) = true) :
    Lexed (ls.flatMap Lexeme.chars ++ '/' :: '/' :: (body' ++ ls'.flatMap Lexeme.chars))
      (ls ++ ⟨.lineComment, '/' :: '/' :: body'⟩ :: ls') := by
  induction ls generalizing cs with
  | nil =>
    cases h with
    | cons hleads hrest =>
      rcases hleads.cases_of_isTrivia rfl with ⟨hc, -, -⟩ | ⟨-, _, -, -, hstop⟩
      · cases hc
      · rw [hrest.flatMap_chars]
        exact .cons (.comment hbody' hstop) hrest
  | cons l ls ih =>
    rw [List.cons_append] at h
    cases h with
    | @cons c ds rest k _ hleads hrest =>
      have hchars := hrest.flatMap_chars
      rw [List.flatMap_append] at hchars
      rw [← hchars] at hleads
      have hleads' : Leads c ds (ls.flatMap Lexeme.chars ++
          '/' :: '/' :: (body' ++ ls'.flatMap Lexeme.chars)) k := by
        refine hleads.of_barrier rfl ?_ fun _ _ => ?_
        · cases ls.flatMap Lexeme.chars <;> rfl
        · rcases ls.flatMap Lexeme.chars with _ | ⟨x, _ | ⟨y, more⟩⟩ <;> rfl
      have hlexed := Lexed.cons hleads' (ih hrest)
      simpa using hlexed

end Lexed

/-! ### Edits of the layout -/

/-- An edit of the layout of a text: blanks are inserted between two lexemes, or at an end, where
no string is broken off; or a comment is worded anew. -/
inductive LayoutEdit : List Char → List Char → Prop
  | blanks {cs blanks : List Char} {ls ls' : List Lexeme} (hcs : lexemes cs = ls ++ ls')
      (hstrings : ∀ l ∈ lexemes cs, l.isBrokenString = false) (hne : blanks ≠ [])
      (hblanks : ∀ x ∈ blanks, isSpace x = true) :
      LayoutEdit cs (ls.flatMap Lexeme.chars ++ (blanks ++ ls'.flatMap Lexeme.chars))
  | comment {cs body body' : List Char} {ls ls' : List Lexeme}
      (hcs : lexemes cs = ls ++ ⟨.lineComment, '/' :: '/' :: body⟩ :: ls')
      (hbody' : ∀ x ∈ body', isLineEnd x = false) :
      LayoutEdit cs (ls.flatMap Lexeme.chars ++ '/' :: '/' :: (body' ++ ls'.flatMap Lexeme.chars))

/-- **An edit of the layout keeps the significant lexemes** of a text. -/
theorem LayoutEdit.significant_eq {cs cs' : List Char} (h : LayoutEdit cs cs') :
    significant (lexemes cs') = significant (lexemes cs) := by
  cases h with
  | blanks hcs hstrings hne hblanks =>
    obtain ⟨b, blanks, rfl⟩ := List.exists_cons_of_ne_nil hne
    have hlexed := lexed_lexemes cs
    rw [hcs] at hlexed hstrings
    obtain ⟨ls'', hls'', hsignificant⟩ := hlexed.insert_blanks hblanks
      fun l hl => hstrings l (List.mem_append_left _ hl)
    rw [hls''.lexemes_eq, hsignificant, hcs]
  | comment hcs hbody' =>
    have hlexed := lexed_lexemes cs
    rw [hcs] at hlexed
    have hreworded := hlexed.reword fun x hx => by rw [hbody' x hx]; rfl
    rw [hreworded.lexemes_eq, hcs, significant_append, significant_append]
    rfl

end HdlModule
