import HdlModule.Proofs.Lexing.Leading

/-!
# Texts and their lexemes

The relation `Lexed` says which lexemes a text falls into, without a length that shrinks. A
lexeme needs no more than four characters of what stands behind it, so a text behind it may be
exchanged for another one that starts alike. It needs none of them to end: text behind it may be
taken away.

## Main definitions

* `Lexed cs ls`: the text `cs` falls into the lexemes `ls`

## Main results

* `lexemes_eq_iff`: `lexemes` computes `Lexed`
* `Leads.congr`: four characters behind a lexeme decide whether it ends there
* `Leads.of_append`: a lexeme ends where it did if text behind it is taken away
-/

namespace HdlModule

/-! ### The lexemes of a text -/

/-- The text falls into the lexemes. -/
inductive Lexed : List Char → List Lexeme → Prop
  | nil : Lexed [] []
  | cons {c : Char} {ds rest : List Char} {k : TokenKind} {ls : List Lexeme}
      (hleads : Leads c ds rest k) (hrest : Lexed rest ls) :
      Lexed (c :: (ds ++ rest)) (⟨k, c :: ds⟩ :: ls)

theorem lexemes_cons_of_leads {c : Char} {ds rest : List Char} {k : TokenKind}
    (h : Leads c ds rest k) : lexemes (c :: (ds ++ rest)) = ⟨k, c :: ds⟩ :: lexemes rest := by
  rw [lexemes_cons, leading_of_leads h, List.take_left, List.drop_left]

theorem lexed_lexemes (cs : List Char) : Lexed cs (lexemes cs) := by
  fun_induction lexemes cs with
  | case1 => exact .nil
  | case2 c cs found ih =>
    obtain ⟨ds, rest, k, rfl, hleads⟩ := exists_leads c cs
    have hfound : found = (k, ds.length) := leading_of_leads hleads
    rw [hfound] at ih ⊢
    rw [List.drop_left] at ih ⊢
    rw [List.take_left]
    exact .cons hleads ih

theorem Lexed.lexemes_eq {cs : List Char} {ls : List Lexeme} (h : Lexed cs ls) :
    lexemes cs = ls := by
  induction h with
  | nil => exact lexemes_nil
  | cons hleads _ ih => rw [lexemes_cons_of_leads hleads, ih]

/-- **A text falls into its lexemes**, and into no others. -/
theorem lexemes_eq_iff {cs : List Char} {ls : List Lexeme} : lexemes cs = ls ↔ Lexed cs ls := by
  refine ⟨?_, Lexed.lexemes_eq⟩
  rintro rfl
  exact lexed_lexemes cs

/-! ### What stands behind a lexeme -/

section Congr

variable {rest rest' : List Char}

theorem take_eq_of_le {m n : Nat} (h : rest.take n = rest'.take n) (hmn : m ≤ n) :
    rest.take m = rest'.take m := by
  have htake := congrArg (List.take m) h
  rwa [List.take_take, List.take_take, Nat.min_eq_left hmn] at htake

theorem head?_eq_of_take {n : Nat} (h : rest.take (n + 1) = rest'.take (n + 1)) :
    rest.head? = rest'.head? := by
  have hhead := congrArg List.head? h
  simpa [List.head?_take] using hhead

theorem prefix_of_take_eq {pre : List Char} {n : Nat} (h : rest.take n = rest'.take n)
    (hpre : pre <+: rest') (hn : pre.length ≤ n) : pre <+: rest := by
  have htake : pre <+: rest.take n := by
    rw [h]
    exact List.prefix_take_iff.2 ⟨hpre, hn⟩
  exact (List.prefix_take_iff.1 htake).1

theorem Stops.congr {p : Char → Bool} (hs : Stops p rest) (h : rest.head? = rest'.head?) :
    Stops p rest' := by
  unfold Stops at *
  rwa [← h]

theorem StopsBased.congr (hs : StopsBased rest) (h : rest.take 3 = rest'.take 3) :
    StopsBased rest' := by
  intro tail hprefix htail
  -- the first three characters of a tail are a tail, and both texts have them
  refine hs (tail.take 3) (prefix_of_take_eq h ?_ (List.length_take_le 3 tail)) htail.take_three
  exact (List.take_prefix 3 tail).trans hprefix

theorem StopsItem.congr (hs : StopsItem rest) (h : rest.take 2 = rest'.take 2) :
    StopsItem rest' := by
  intro item hprefix hitem
  refine hs item (prefix_of_take_eq h hprefix ?_) hitem
  cases hitem <;> simp

/-- **A lexeme is local**: four characters behind it decide whether it ends there. -/
theorem Leads.congr {c : Char} {ds : List Char} {k : TokenKind} (hleads : Leads c ds rest k)
    (h : rest.take 4 = rest'.take 4) : Leads c ds rest' k := by
  have hhead : rest.head? = rest'.head? := head?_eq_of_take h
  cases hleads with
  | space hc hds hrest => exact .space hc hds (hrest.congr hhead)
  | word hc hds hrest => exact .word hc hds (hrest.congr hhead)
  | integer hc hds hrest hbased =>
    refine .integer hc hds (hrest.congr hhead) ?_
    -- one of the four characters is the apostrophe, and three are left for a tail
    rintro tail' rfl
    obtain ⟨tail, rfl⟩ := List.head?_eq_some_iff.1 hhead
    refine (hbased tail rfl).congr ?_
    simpa using h
  | sized hc hds htail hrest => exact .sized hc hds htail (hrest.congr hhead)
  | unsized hds hrest => exact .unsized hds (hrest.congr hhead)
  | apostrophe hrest => exact .apostrophe (hrest.congr (take_eq_of_le h (by decide)))
  | string hds => exact .string hds
  | broken hds hrest hquote =>
    exact .broken hds (hrest.congr (take_eq_of_le h (by decide))) (hhead ▸ hquote)
  | directive hd hds hrest => exact .directive hd hds (hrest.congr hhead)
  | backtick hrest => exact .backtick (hrest.congr hhead)
  | comment hds hrest => exact .comment hds (hrest.congr hhead)
  | blockComment => exact .blockComment
  | slash hrest => exact .slash (hhead ▸ hrest)
  | doubleColon => exact .doubleColon
  | colon hrest => exact .colon (hhead ▸ hrest)
  | alone hc => exact .alone hc

end Congr

/-! ### Less text behind a lexeme -/

section Append

variable {c : Char} {ds rest more : List Char} {k : TokenKind}

theorem Stops.of_append {p : Char → Bool} (h : Stops p (rest ++ more)) : Stops p rest := by
  cases rest with
  | nil => exact stops_nil
  | cons x xs => exact h

theorem forall_head?_of_append {P : Char → Prop} (h : ∀ x ∈ (rest ++ more).head?, P x) :
    ∀ x ∈ rest.head?, P x := by
  cases rest with
  | nil => simp
  | cons x xs => exact h

theorem StopsBased.of_append (h : StopsBased (rest ++ more)) : StopsBased rest :=
  fun tail hstarts => h tail (hstarts.trans (List.prefix_append ..))

/-- **A lexeme ends where it did** if text behind it is taken away. -/
theorem Leads.of_append (h : Leads c ds (rest ++ more) k) : Leads c ds rest k := by
  generalize htext : rest ++ more = text at h
  cases h with
  | space hc hds hrest => exact .space hc hds (htext ▸ hrest).of_append
  | word hc hds hrest => exact .word hc hds (htext ▸ hrest).of_append
  | integer hc hds hrest hbased =>
    refine .integer hc hds (htext ▸ hrest).of_append ?_
    rintro tail rfl
    exact (hbased (tail ++ more) htext.symm).of_append
  | sized hc hds htail hrest => exact .sized hc hds htail (htext ▸ hrest).of_append
  | unsized hds hrest => exact .unsized hds (htext ▸ hrest).of_append
  | apostrophe hrest => exact .apostrophe (htext ▸ hrest).of_append
  | string hds => exact .string hds
  | broken hds hrest hquote =>
    refine .broken hds (fun item hstarts => ?_) (forall_head?_of_append (htext ▸ hquote))
    exact hrest item (htext ▸ hstarts.trans (List.prefix_append ..))
  | directive hd hds hrest => exact .directive hd hds (htext ▸ hrest).of_append
  | backtick hrest => exact .backtick (htext ▸ hrest).of_append
  | comment hds hrest => exact .comment hds (htext ▸ hrest).of_append
  | blockComment => exact .blockComment
  | slash hrest => exact .slash (forall_head?_of_append (htext ▸ hrest))
  | doubleColon => exact .doubleColon
  | colon hrest => exact .colon (forall_head?_of_append (htext ▸ hrest))
  | alone hc => exact .alone hc

end Append

end HdlModule
