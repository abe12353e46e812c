import MagicCircle.Description.Spacing
import MagicCircle.Description.Tokens
import MagicCircle.Proofs.Description.Grammar
import MagicCircle.Proofs.Description.Scanner
import Mathlib.Data.List.SplitBy

/-!
# Tokens of a description

A text that is read as a diagram lists, token by token, the diagram and all diagrams in it in
preorder (`listing_of_read`): none is lost or there twice, and each stands in the groups that are open
at its place.

The induction goes along the grammar. A group lists its own diagram whatever text comes after it
(`GroupText.listing_eq`), and a body does if no word goes on in that text (`BodyText.listing_eq`).
-/

namespace MagicCircle.Description

open Diagram (Label)

variable {depth : Nat} {c : Char} {u v w rest text : List Char} {b : Bracket} {shape : Shape}
  {d : Diagram} {ds : List Diagram}

/-! ### Splitting a text -/

theorem tokens_append (h : Unjoined u v) : tokens (u ++ v) = tokens u ++ tokens v := by
  rw [tokens, List.splitBy_append, List.map_append]
  · rfl
  · intro a ha b hb
    have hab := h a ha b hb
    simpa using hab

theorem tokens_word (hne : w ≠ []) (hw : ∀ c ∈ w, isWordChar c = true)
    (hrest : ∀ c ∈ rest.head?, isWordChar c = false) :
    tokens (w ++ rest) = .word w :: tokens rest := by
  have hunjoined : Unjoined w rest := fun a _ b hb hab => by
    rw [hrest b hb] at hab
    cases hab.2
  have hchain : w.IsChain fun a b => (isWordChar a && isWordChar b) = true := by
    refine (List.pairwise_of_forall_mem_list fun a ha b hb => ?_).isChain
    rw [hw a ha, hw b hb]
    rfl
  have hpiece : Token.ofPiece w = .word w := by
    rcases w with _ | ⟨c, _ | _⟩
    · exact absurd rfl hne
    · exact if_pos (hw c List.mem_cons_self)
    · rfl
  rw [tokens_append hunjoined, tokens, List.splitBy_of_isChain hne hchain, List.map_singleton,
    hpiece, List.singleton_append]

theorem tokens_sign (hc : isWordChar c = false) (rest : List Char) :
    tokens (c :: rest) = .sign c :: tokens rest := by
  have hunjoined : Unjoined [c] rest := fun a ha b _ hab => by
    obtain rfl : c = a := Option.some.inj ha
    rw [hc] at hab
    cases hab.1
  have htoken : tokens [c] = [if isWordChar c then .word [c] else .sign c] := rfl
  rw [hc] at htoken
  rw [← List.singleton_append, tokens_append hunjoined, htoken]
  rfl

/-! ### Listing what the grammar derives -/

theorem listing_closing (b : Bracket) (ts : List Token) :
    Token.listing depth (.sign b.closing :: ts) = Token.listing (depth - 1) ts := by
  cases b <;> rfl

theorem listing_separator (hc : isSeparator c = true) (rest : List Char) :
    Token.listing depth (tokens (c :: rest)) = Token.listing depth (tokens rest) := by
  simp only [isSeparator, isSpace, Bool.or_eq_true, beq_iff_eq] at hc
  rcases hc with ((rfl | rfl) | rfl) | rfl <;> rw [tokens_sign rfl] <;> rfl

theorem listing_separators (hv : ∀ c ∈ v, isSeparator c = true) (rest : List Char) :
    Token.listing depth (tokens (v ++ rest)) = Token.listing depth (tokens rest) := by
  induction v with
  | nil => rfl
  | cons c v ih =>
    obtain ⟨hc, hv⟩ := List.forall_mem_cons.1 hv
    rw [List.cons_append, listing_separator hc, ih hv]

theorem tokens_mark (hc : isWordChar c = true) (rest : List Char) :
    tokens ('<' :: c :: ':' :: rest) = .sign '<' :: .word [c] :: .sign ':' :: tokens rest := by
  have hword : tokens (c :: ':' :: rest) = .word [c] :: tokens (':' :: rest) :=
    tokens_word (List.cons_ne_nil c []) (by simpa using hc) (by rintro a ⟨⟩; rfl)
  rw [tokens_sign rfl, hword, tokens_sign rfl]

theorem listing_head (h : Head b w shape) (rest : List Char) :
    Token.listing depth (tokens (b.opening :: (w ++ rest))) =
      (depth, some (.shape shape)) :: Token.listing (depth + 1) (tokens rest) := by
  cases h with
  | round => exact congrArg _ (tokens_sign (c := '(') rfl rest)
  | square => exact congrArg _ (tokens_sign (c := '[') rfl rest)
  | target => exact congrArg _ (tokens_mark (c := 'T') rfl rest)
  | duration => exact congrArg _ (tokens_mark (c := 'D') rfl rest)
  | restriction => exact congrArg _ (tokens_mark (c := 'R') rfl rest)

/-- What the tokens of a diagram's text list, where `depth` groups are open around it. -/
def listed (depth : Nat) (d : Diagram) : List (Nat × Option Label) :=
  (d.preorder depth).map fun e => (e.1, some e.2.label)

theorem listed_composed (h : Composed shape ds d) :
    listed depth d = (depth, some (.shape shape)) :: ds.flatMap (listed (depth + 1)) := by
  rcases h with _ | _ <;> simp [listed, Diagram.preorder, Diagram.label]

mutual

theorem GroupText.listing_eq {n : Nat} {w : List Char} {d : Diagram} (h : GroupText n w d)
    (depth : Nat) (rest : List Char) :
    Token.listing depth (tokens (w ++ rest)) =
      listed depth d ++ Token.listing depth (tokens rest) := by
  match h with
  | .mk _ b head body shape ds _ hhead hbody hd =>
    have hclosing : isWordChar b.closing = false := isWordChar_of_isClosing b.isClosing_closing
    have hafter := hbody.listing_eq (depth + 1) (b.closing :: rest) (by
      rintro c ⟨⟩
      exact hclosing)
    have hw : b.opening :: (head ++ body ++ [b.closing]) ++ rest =
        b.opening :: (head ++ (body ++ b.closing :: rest)) := by simp
    rw [hw, listing_head hhead, hafter, tokens_sign hclosing, listing_closing,
      listed_composed hd]
    rfl

theorem BodyText.listing_eq {n : Nat} {w : List Char} {ds : List Diagram} (h : BodyText n w ds)
    (depth : Nat) (rest : List Char) (hrest : ∀ c ∈ rest.head?, isWordChar c = false) :
    Token.listing depth (tokens (w ++ rest)) =
      ds.flatMap (listed depth) ++ Token.listing depth (tokens rest) := by
  match h with
  | .nil _ => rfl
  | .separator _ c v _ hc hv =>
    rw [List.cons_append, listing_separator hc, hv.listing_eq depth rest hrest]
  | .rune _ word v ds hne hword hhead hv =>
    have hnext : ∀ c ∈ (v ++ rest).head?, isWordChar c = false := by
      rcases v with _ | ⟨a, v⟩
      · exact hrest
      · exact hhead
    rw [List.append_assoc, tokens_word hne hword hnext, List.flatMap_cons, List.append_assoc,
      ← hv.listing_eq depth rest hrest]
    rfl
  | .group _ v v' d ds hd hv =>
    rw [List.append_assoc, hd.listing_eq depth, hv.listing_eq depth rest hrest, List.flatMap_cons,
      List.append_assoc]

end

/-! ### Names -/

theorem Token.names_of_marked {ts : List Token} (h : ∀ w ts', ts ≠ .word w :: ts') :
    Token.names true ts = Token.names false ts := by
  rcases ts with _ | ⟨w | c, ts⟩
  · rfl
  · exact absurd rfl (h w ts)
  · rfl

theorem filterMap_listing (depth : Nat) (ts : List Token) :
    (Token.listing depth ts).filterMap (fun e => e.2.bind Label.name?) =
      Token.names false ts := by
  fun_induction Token.listing depth ts with
  | case1 => rfl
  | case2 depth w ts ih => exact congrArg _ ih
  | case3 depth ts ih => exact ih
  | case4 depth ts ih => exact ih
  | case5 depth w ts ih =>
    rw [List.filterMap_cons_none]
    · exact ih
    · rcases Triangle.ofMark? w with _ | t <;> rfl
  | case6 depth ts hword ih => exact ih.trans (Token.names_of_marked hword).symm
  | case7 depth c ts hround hsquare hmark hangle ih =>
    have hc : (c == '<') = false := by simpa using hangle
    rw [ih, Token.names, hc]

theorem leaves_eq_filterMap (depth : Nat) (d : Diagram) :
    d.leaves = (listed depth d).filterMap fun e => e.2.bind Label.name? := by
  induction d generalizing depth with
  | rune name => rfl
  | solo s d ih => exact ih (depth + 1)
  | pair s d e ihd ihe =>
    rw [listed_composed (.pair d e), List.filterMap_cons_none rfl, List.flatMap_cons,
      List.flatMap_singleton, List.filterMap_append, ← ihd, ← ihe, Diagram.leaves]

/-- A diagram lists what the text lists that it is read from: one shape for each opening bracket, one
rune for each word that is no mark, in the order of the text, and each as deep as there are groups
open before it. So its runes are named by the words that do not come right after an angle bracket. -/
theorem listing_of_read {limit : Nat} (h : read limit text = .ok d) :
    Token.listing 0 (tokens text) = (d.preorder 0).map (fun e => (e.1, some e.2.label)) ∧
      Token.names false (tokens text) = d.leaves := by
  obtain ⟨before, w, after, rfl, hbefore, hafter, hgroup, -⟩ := describes_of_read h
  have hspace : ∀ {v : List Char}, (∀ c ∈ v, isSpace c = true) → ∀ c ∈ v, isSeparator c = true :=
    fun hv c hc => by simp [isSeparator, hv c hc]
  have hend : Token.listing 0 (tokens after) = [] := by
    rw [← List.append_nil after, listing_separators (hspace hafter)]
    rfl
  have hlisting : Token.listing 0 (tokens (before ++ w ++ after)) = listed 0 d := by
    rw [List.append_assoc, listing_separators (hspace hbefore), hgroup.listing_eq 0, hend,
      List.append_nil]
  refine ⟨hlisting, ?_⟩
  rw [← filterMap_listing 0, hlisting, ← leaves_eq_filterMap]

/-- In `(a<T:b_1>)` the mark is no rune, and the second rune is two groups deep. -/
theorem listing_of_read_target :
    read 4 "(a<T:b_1>)".toList =
        .ok (.pair .spell (.rune "a") (.solo (.triangle .target) (.rune "b_1"))) ∧
      Token.listing 0 (tokens "(a<T:b_1>)".toList) =
        [(0, some (.shape .spell)), (1, some (.rune "a")),
          (1, some (.shape (.triangle .target))), (2, some (.rune "b_1"))] ∧
      Token.names false (tokens "(a<T:b_1>)".toList) = ["a", "b_1"] := by
  have hread : read 4 "(a<T:b_1>)".toList =
      .ok (.pair .spell (.rune "a") (.solo (.triangle .target) (.rune "b_1"))) :=
    (read_eq_scanner_read ..).trans rfl
  exact ⟨hread, listing_of_read hread⟩

end MagicCircle.Description
