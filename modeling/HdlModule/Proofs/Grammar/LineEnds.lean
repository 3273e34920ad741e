import HdlModule.Proofs.Grammar.Places

/-!
# Line ends do not matter, but behind a backslash

A text may end its lines with LF, with CR or with CR LF. An LF stands only in blanks, and CR is a
blank as well, so a lexeme goes as far with one line end as with another. The exception is a
string that is broken off at a backslash at the end of a line: a backslash takes a CR with it, but
no LF. With a CR behind the backslash the string goes on, and may take the rest of the module with
it. A text has the same significant lexemes with each line end exactly if it has no such string.

## Main definitions

* `LineEnding`, `endLines ending text`: the text with another line end in place of each LF
* `EscapesLineEnd ls`: a string among the lexemes is broken off at a backslash with LF behind it
* `SameOutcome`: two results of reading a text with the same interface or the same code

## Main results

* `significant_withLineEnds_iff`: the texts with the same significant lexemes, whatever their line
  ends
* `sameButPlaces_endLines`: such a text declares the same, or is refused in the same words
* `not_forall_sameOutcome_endLines`: other texts may declare something else, or nothing
-/

namespace HdlModule

/-! ### Texts with other line ends -/

/-- How lines end that do not end with LF alone. -/
inductive LineEnding where
  | cr
  | crlf
deriving DecidableEq

/-- The characters of a line end. -/
def LineEnding.chars : LineEnding → List Char
  | cr => ['\r']
  | crlf => ['\r', '\n']

/-- The text with the line end in place of each LF. -/
def withLineEnds (ending : LineEnding) : List Char → List Char
  | [] => []
  | c :: cs => (if c = '\n' then ending.chars else [c]) ++ withLineEnds ending cs

/-- The text with the line end in place of each LF, as a string. -/
def endLines (ending : LineEnding) (text : String) : String :=
  String.ofList (withLineEnds ending text.toList)

section Text

variable {ending : LineEnding} {c : Char} {cs ds rest : List Char}

@[simp]
theorem withLineEnds_nil : withLineEnds ending [] = [] := rfl

theorem withLineEnds_cons_of_ne (hc : c ≠ '\n') :
    withLineEnds ending (c :: cs) = c :: withLineEnds ending cs := by
  rw [withLineEnds, if_neg hc, List.singleton_append]

/-- Each line end starts with CR. -/
theorem exists_withLineEnds_lf (ending : LineEnding) (cs : List Char) :
    ∃ more, withLineEnds ending ('\n' :: cs) = '\r' :: more := by
  cases ending <;> exact ⟨_, rfl⟩

theorem exists_withLineEnds_cons (ending : LineEnding) (c : Char) (cs : List Char) :
    ∃ c' more, withLineEnds ending (c :: cs) = c' :: more := by
  by_cases hc : c = '\n'
  · obtain ⟨more, hmore⟩ := exists_withLineEnds_lf ending cs
    exact ⟨'\r', more, by rw [hc, hmore]⟩
  · exact ⟨c, _, withLineEnds_cons_of_ne hc⟩

@[simp]
theorem withLineEnds_append (cs ds : List Char) :
    withLineEnds ending (cs ++ ds) = withLineEnds ending cs ++ withLineEnds ending ds := by
  induction cs with
  | nil => rfl
  | cons c cs ih => rw [List.cons_append, withLineEnds, withLineEnds, ih, List.append_assoc]

/-- A text of one line stays as it is. -/
theorem withLineEnds_of_not_mem (ending : LineEnding) (h : '\n' ∉ cs) :
    withLineEnds ending cs = cs := by
  induction cs with
  | nil => rfl
  | cons c cs ih =>
    rw [List.mem_cons, not_or] at h
    rw [withLineEnds_cons_of_ne (Ne.symm h.1), ih h.2]

/-- Blanks stay blanks. -/
theorem isSpace_of_mem_withLineEnds (ending : LineEnding) (h : ∀ x ∈ cs, isSpace x = true) :
    ∀ x ∈ withLineEnds ending cs, isSpace x = true := by
  induction cs with
  | nil => exact h
  | cons c cs ih =>
    obtain ⟨hc, hcs⟩ := List.forall_mem_cons.1 h
    intro x hx
    rw [withLineEnds, List.mem_append] at hx
    rcases hx with hx | hx
    · split at hx
      · revert x
        cases ending <;> simp [LineEnding.chars, isSpace]
      · rw [List.mem_singleton.1 hx, hc]
    · exact ih hcs x hx

/-! ### What a lexeme finds behind it -/

/-- The text starts as before, or with a blank. -/
theorem startsAlike_withLineEnds (rest : List Char) :
    StartsAlike rest (withLineEnds ending rest) := by
  cases rest with
  | nil => exact Or.inl rfl
  | cons x rest =>
    by_cases hx : x = '\n'
    · obtain ⟨more, hmore⟩ := exists_withLineEnds_lf ending rest
      rw [hx, hmore]
      exact Or.inr ⟨'\r', rfl, rfl⟩
    · rw [withLineEnds_cons_of_ne hx]
      exact Or.inl rfl

/-- A class that goes on where it did not before has CR in it. -/
theorem Stops.lineEnds {p : Char → Bool} (h : Stops p rest) (hp : p '\r' = false) :
    Stops p (withLineEnds ending rest) := by
  cases rest with
  | nil => exact h
  | cons x rest =>
    by_cases hx : x = '\n'
    · obtain ⟨more, hmore⟩ := exists_withLineEnds_lf ending rest
      rw [hx, hmore]
      exact stops_cons.2 hp
    · rw [withLineEnds_cons_of_ne hx]
      exact stops_cons.2 (stops_cons.1 h)

/-- What stands behind blanks is no line end. -/
theorem Stops.blanks_lineEnds (h : Stops isSpace rest) :
    Stops isSpace (withLineEnds ending rest) := by
  cases rest with
  | nil => exact h
  | cons x rest =>
    have hx : x ≠ '\n' := by
      rintro rfl
      cases stops_cons.1 h
    rw [withLineEnds_cons_of_ne hx]
    exact stops_cons.2 (stops_cons.1 h)

/-- Words without blanks stand in front of a text where they stood before. -/
theorem Unbarred.prefix_of_withLineEnds {word : List Char} (hword : Unbarred word)
    (h : word <+: withLineEnds ending rest) : word <+: rest := by
  induction word generalizing rest with
  | nil => exact List.nil_prefix
  | cons w word ih =>
    obtain ⟨hw, hword⟩ := List.forall_mem_cons.1 hword
    cases rest with
    | nil => exact h
    | cons x rest =>
      by_cases hx : x = '\n'
      · -- a word does not start with the blank that a line end starts with
        obtain ⟨more, hmore⟩ := exists_withLineEnds_lf ending rest
        rw [hx, hmore] at h
        obtain ⟨rfl, -⟩ := List.cons_prefix_cons.1 h
        cases hw
      · rw [withLineEnds_cons_of_ne hx] at h
        obtain ⟨rfl, htail⟩ := List.cons_prefix_cons.1 h
        exact (List.prefix_cons_inj w).2 (ih hword htail)

/-- A string that is broken off at a line end is so at another one, unless a backslash stands
there. -/
theorem StopsItem.lineEnds (h : StopsItem rest) (hescape : ¬ ['\x5c', '\n'] <+: rest) :
    StopsItem (withLineEnds ending rest) := by
  cases rest with
  | nil => exact h
  | cons x rest =>
    by_cases hx : x = '\n'
    · obtain ⟨more, hmore⟩ := exists_withLineEnds_lf ending rest
      rw [hx, hmore]
      intro item hprefix hitem
      cases hitem with
      | plain hquote hslash hend =>
        obtain ⟨rfl, -⟩ := List.cons_prefix_cons.1 hprefix
        cases hend
      | escaped hc => exact absurd (List.cons_prefix_cons.1 hprefix).1 (by decide)
    · rw [withLineEnds_cons_of_ne hx]
      intro item hprefix hitem
      cases hitem with
      | plain hquote hslash hend =>
        obtain ⟨rfl, -⟩ := List.cons_prefix_cons.1 hprefix
        exact h _ ⟨rest, rfl⟩ (.plain hquote hslash hend)
      | @escaped d hd =>
        obtain ⟨rfl, htail⟩ := List.cons_prefix_cons.1 hprefix
        cases rest with
        | nil => exact absurd htail (by simp)
        | cons y rest =>
          have hy : y ≠ '\n' := by
            rintro rfl
            exact hescape ⟨rest, rfl⟩
          rw [withLineEnds_cons_of_ne hy] at htail
          obtain ⟨rfl, -⟩ := List.cons_prefix_cons.1 htail
          exact h _ ⟨rest, rfl⟩ (.escaped hd)

end Text

/-! ### Lexemes of a text with other line ends -/

section Leads

variable {ending : LineEnding} {c : Char} {ds rest : List Char} {k : TokenKind}

/-- What a quotation mark opens without closing it breaks off behind its items. -/
theorem Leads.broken_of_quote (h : Leads '\x22' ds rest .invalid) :
    StringItems ds ∧ StopsItem rest ∧ ∀ c ∈ rest.head?, c ≠ '\x22' := by
  obtain ⟨es, tail, heq, hes, htail⟩ := exists_stringItems (ds ++ rest)
  rcases starts_or_not '\x22' tail with ⟨tail, rfl⟩ | hquote
  · have hstring : Leads '\x22' (es ++ ['\x22']) tail .string := .string hes
    obtain ⟨-, -, hkind⟩ := h.unique hstring (by rw [heq]; simp)
    cases hkind
  · obtain ⟨rfl, rfl, -⟩ := h.unique (.broken hes htail hquote) heq
    exact ⟨hes, htail, hquote⟩

/-- A lexeme other than blanks ends where it did, unless it is broken off at a backslash at the
end of a line. -/
theorem Leads.before_withLineEnds (h : Leads c ds rest k) (hk : k ≠ .whitespace)
    (hescape : Lexeme.isBrokenString ⟨k, c :: ds⟩ = true → ¬ ['\x5c', '\n'] <+: rest) :
    Leads c ds (withLineEnds ending rest) k := by
  by_cases htrivia : k.isTrivia = true
  · -- a comment ends at a CR as at an LF
    rcases h.cases_of_isTrivia htrivia with ⟨hc, -, -⟩ | ⟨rfl, body, rfl, hbody, hstop⟩
    · exact absurd (h.blanks_of_isSpace hc).1 hk
    · obtain ⟨-, -, rfl⟩ := h.unique (.comment hbody hstop) rfl
      exact .comment hbody (hstop.lineEnds rfl)
  by_cases hbroken : k = .invalid ∧ c = '\x22'
  · obtain ⟨rfl, rfl⟩ := hbroken
    obtain ⟨hds, hstop, hquote⟩ := h.broken_of_quote
    refine .broken hds (hstop.lineEnds (hescape rfl)) ?_
    exact (startsAlike_withLineEnds rest).head?_ne rfl hquote
  · refine h.of_behind (startsAlike_withLineEnds rest) (fun ht => absurd ht htrivia) ?_
      fun hinvalid hc => absurd ⟨hinvalid, hc⟩ hbroken
    intro word hword hprefix
    exact hword.prefix_of_withLineEnds hprefix

/-- Blanks end where they did. -/
theorem Leads.blanks_withLineEnds (ending : LineEnding) (h : Leads c ds rest .whitespace) :
    ∃ c' ds', withLineEnds ending (c :: ds) = c' :: ds' ∧
      Leads c' ds' (withLineEnds ending rest) .whitespace := by
  rcases h.cases_of_isTrivia rfl with ⟨hc, hds, hstop⟩ | ⟨rfl, body, rfl, hbody, hstop⟩
  · have hblanks := isSpace_of_mem_withLineEnds ending
      (List.forall_mem_cons.2 ⟨hc, hds⟩)
    obtain ⟨c', ds', heq⟩ := exists_withLineEnds_cons ending c ds
    rw [heq] at hblanks ⊢
    obtain ⟨hc', hds'⟩ := List.forall_mem_cons.1 hblanks
    exact ⟨c', ds', rfl, .space hc' hds' hstop.blanks_lineEnds⟩
  · obtain ⟨-, -, hkind⟩ := h.unique (.comment hbody hstop) rfl
    cases hkind

/-- With other line ends a lexeme has the same kind, and other characters only if it is a run of
blanks. -/
theorem Leads.exists_withLineEnds (ending : LineEnding) (h : Leads c ds rest k)
    (hescape : Lexeme.isBrokenString ⟨k, c :: ds⟩ = true → ¬ ['\x5c', '\n'] <+: rest) :
    ∃ c' ds', withLineEnds ending (c :: ds) = c' :: ds' ∧
      Leads c' ds' (withLineEnds ending rest) k ∧
      significant [⟨k, c' :: ds'⟩] = significant [⟨k, c :: ds⟩] := by
  by_cases hk : k = .whitespace
  · subst hk
    obtain ⟨c', ds', heq, hleads⟩ := h.blanks_withLineEnds ending
    exact ⟨c', ds', heq, hleads, rfl⟩
  · refine ⟨c, ds, withLineEnds_of_not_mem ending (h.lf_not_mem hk), ?_, rfl⟩
    exact h.before_withLineEnds hk hescape

end Leads

/-! ### Strings that are broken off at a line end -/

/-- A string among the lexemes is broken off at a backslash with LF behind it. -/
def EscapesLineEnd : List Lexeme → Prop
  | [] => False
  | l :: ls =>
    l.isBrokenString = true ∧ ['\x5c', '\n'] <+: ls.flatMap Lexeme.chars ∨ EscapesLineEnd ls

instance decidableEscapesLineEnd : (ls : List Lexeme) → Decidable (EscapesLineEnd ls)
  | [] => inferInstanceAs (Decidable False)
  | l :: ls =>
    have := decidableEscapesLineEnd ls
    inferInstanceAs (Decidable
      (l.isBrokenString = true ∧ ['\x5c', '\n'] <+: ls.flatMap Lexeme.chars ∨ EscapesLineEnd ls))

section Lexed

variable {ending : LineEnding} {cs : List Char} {ls : List Lexeme}

/-- A string that was broken off at a backslash goes on when a CR stands behind it. -/
theorem significant_lexemes_ne_of_escape {ds more : List Char} {ls : List Lexeme} :
    significant (lexemes ('\x22' :: (ds ++ '\x5c' :: '\r' :: more))) ≠
      ⟨.invalid, '\x22' :: ds⟩ :: ls := by
  intro heq
  obtain ⟨ds', rest', k, hsplit, hleads⟩ := exists_leads '\x22' (ds ++ '\x5c' :: '\r' :: more)
  rw [hsplit, lexemes_cons_of_leads hleads, significant_cons] at heq
  cases hk : k.isTrivia with
  | true =>
    -- neither blanks nor comments start with a quotation mark
    rcases hleads.cases_of_isTrivia hk with ⟨hc, -, -⟩ | ⟨hc, -⟩
    · cases hc
    · exact absurd hc (by decide)
  | false =>
    have hsignificant : significant [⟨k, '\x22' :: ds'⟩] = [⟨k, '\x22' :: ds'⟩] := by
      simp [significant, hk]
    rw [hsignificant, List.singleton_append, List.cons.injEq, Lexeme.mk.injEq] at heq
    obtain ⟨⟨rfl, hds⟩, -⟩ := heq
    obtain rfl : ds' = ds := List.tail_eq_of_cons_eq hds
    obtain rfl : _ = rest' := List.append_cancel_left hsplit
    obtain ⟨-, hstop, -⟩ := hleads.broken_of_quote
    exact hstop ['\x5c', '\r'] ⟨more, rfl⟩ (.escaped (by decide))

/-- **The texts whose line ends do not matter** to their significant lexemes are those without a
string that is broken off at a backslash at the end of a line. -/
theorem significant_withLineEnds_iff (h : Lexed cs ls) :
    significant (lexemes (withLineEnds ending cs)) = significant ls ↔ ¬ EscapesLineEnd ls := by
  induction h with
  | nil => simp [EscapesLineEnd]
  | @cons c ds rest k ls hleads hrest ih =>
    have hchars := hrest.flatMap_chars
    by_cases hescape : Lexeme.isBrokenString ⟨k, c :: ds⟩ = true ∧ ['\x5c', '\n'] <+: rest
    · have hesc : EscapesLineEnd (⟨k, c :: ds⟩ :: ls) := Or.inl (by rwa [hchars])
      obtain ⟨hbroken, more, rfl⟩ := hescape
      obtain ⟨rfl, rfl⟩ : k = .invalid ∧ c = '\x22' := by
        simpa [Lexeme.isBrokenString] using hbroken
      have hds := withLineEnds_of_not_mem ending (hleads.lf_not_mem (by decide))
      obtain ⟨tail, htail⟩ := exists_withLineEnds_lf ending more
      have htext : withLineEnds ending ('\x22' :: (ds ++ (['\x5c', '\n'] ++ more))) =
          '\x22' :: (ds ++ '\x5c' :: '\r' :: tail) := by
        rw [← List.cons_append, withLineEnds_append, hds, List.cons_append, List.cons_append,
          List.singleton_append, withLineEnds_cons_of_ne (by decide), htail]
      rw [htext]
      exact iff_of_false significant_lexemes_ne_of_escape (not_not_intro hesc)
    · have hesc : EscapesLineEnd (⟨k, c :: ds⟩ :: ls) ↔ EscapesLineEnd ls := by
        rw [EscapesLineEnd, hchars, or_iff_right hescape]
      obtain ⟨c', ds', heq, hleads', hsame⟩ := hleads.exists_withLineEnds ending
        fun hbroken hprefix => hescape ⟨hbroken, hprefix⟩
      rw [← List.cons_append, withLineEnds_append, heq, List.cons_append,
        lexemes_cons_of_leads hleads', significant_cons, significant_cons ⟨k, c :: ds⟩, hsame,
        List.append_cancel_left_eq, ih, hesc]

end Lexed

/-! ### Outcomes -/

/-- Two results of reading a text that declare the same name, ports and parameters, or that are
refused with the same code. -/
def SameOutcome : Except Diagnostic Interface → Except Diagnostic Interface → Prop
  | .ok i, .ok i' => i.name = i'.name ∧ i.ports = i'.ports ∧ i.parameters = i'.parameters
  | .error d, .error d' => d.code = d'.code
  | _, _ => False

instance : (x y : Except Diagnostic Interface) → Decidable (SameOutcome x y)
  | .ok _, .ok _ => inferInstanceAs (Decidable (_ ∧ _ ∧ _))
  | .error _, .error _ => inferInstanceAs (Decidable (_ = _))
  | .ok _, .error _ => inferInstanceAs (Decidable False)
  | .error _, .ok _ => inferInstanceAs (Decidable False)

/-- Results that differ in places only have the same outcome. -/
theorem SameButPlaces.sameOutcome {x y : Except Diagnostic Interface} (h : SameButPlaces x y) :
    SameOutcome x y := by
  cases x with
  | ok i =>
    cases y with
    | ok i' => exact h
    | error d => exact h
  | error d =>
    cases y with
    | ok i => exact h
    | error d' => exact congrArg Prod.fst h

/-- **Line ends do not matter** to a text without a string that is broken off at a backslash at
the end of a line: with CR or CR LF in place of each LF it declares the same interface, or is
refused in the same words. Exactly these texts have the same significant lexemes with each line
end. -/
theorem sameButPlaces_endLines (ending : LineEnding) (source : String) :
    ((significantTokens (endLines ending source)).map Token.toLexeme =
        (significantTokens source).map Token.toLexeme ↔
      ¬ EscapesLineEnd (lexemes source.toList)) ∧
    (¬ EscapesLineEnd (lexemes source.toList) →
      SameButPlaces (Interface.ofText source) (Interface.ofText (endLines ending source)) ∧
      SameOutcome (Interface.ofText source) (Interface.ofText (endLines ending source))) := by
  have hiff : (significantTokens (endLines ending source)).map Token.toLexeme =
      (significantTokens source).map Token.toLexeme ↔
        ¬ EscapesLineEnd (lexemes source.toList) := by
    rw [map_toLexeme_significantTokens, map_toLexeme_significantTokens, endLines,
      String.toList_ofList]
    exact significant_withLineEnds_iff (lexed_lexemes source.toList)
  refine ⟨hiff, fun hescape => ?_⟩
  have hsame := sameButPlaces_ofText (hiff.2 hescape).symm
  exact ⟨hsame, hsame.sameOutcome⟩

/-- A comment that ends with a backslash, a string with escaped characters and a string that is
broken off at the end of a line. -/
theorem sameButPlaces_endLines_mixed :
    ¬ EscapesLineEnd (lexemes "//\\\nmodule A();\n\"\\\"\\\\\"\"x\nendmodule".toList) ∧
      SameButPlaces (Interface.ofText "//\\\nmodule A();\n\"\\\"\\\\\"\"x\nendmodule")
        (Interface.ofText "//\\\r\nmodule A();\r\n\"\\\"\\\\\"\"x\r\nendmodule") := by
  have hescape :
      ¬ EscapesLineEnd (lexemes "//\\\nmodule A();\n\"\\\"\\\\\"\"x\nendmodule".toList) := by
    decide +kernel
  have htext : endLines .crlf "//\\\nmodule A();\n\"\\\"\\\\\"\"x\nendmodule" =
      "//\\\r\nmodule A();\r\n\"\\\"\\\\\"\"x\r\nendmodule" := by
    decide +kernel
  refine ⟨hescape, ?_⟩
  rw [← htext]
  exact ((sameButPlaces_endLines .crlf _).2 hescape).1

/-- With CR as the line end, a string that was broken off may take the end of the module with it;
with CR LF the text of a broken string, which the type of a parameter may hold, has a CR in it. -/
theorem not_forall_sameOutcome_endLines :
    (¬ ∀ source : String, '\r' ∉ source.toList →
        SameOutcome (Interface.ofText source) (Interface.ofText (endLines .cr source))) ∧
      ¬ ∀ source : String, '\r' ∉ source.toList →
        SameOutcome (Interface.ofText source) (Interface.ofText (endLines .crlf source)) := by
  constructor
  · intro hall
    have hsame := hall "module A(); \"\\\n endmodule \"" (by decide +kernel)
    revert hsame
    decide +kernel
  · intro hall
    have hsame := hall "module A #(parameter [\"\\\n] N = 1) (); endmodule" (by decide +kernel)
    revert hsame
    decide +kernel

end HdlModule
