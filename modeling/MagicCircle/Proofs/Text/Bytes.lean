import MagicCircle.Proofs.Text.Tail

/-!
# Bytes and characters

Bytes tell where characters start: a byte that starts a character starts one in every text
(`exists_of_drop_bytes`). So where two texts have the same bytes from the start of a character on,
they have the same characters there (`prefix_of_bytes_prefix`).
-/

namespace MagicCircle.Text

variable {u v text : List Char} {c : Char} {pos : Nat}

theorem bytes_cons (c : Char) (cs : List Char) :
    bytes (c :: cs) = String.utf8EncodeChar c ++ bytes cs := rfl

theorem bytes_append (u v : List Char) : bytes (u ++ v) = bytes u ++ bytes v :=
  List.flatMap_append

theorem length_bytes : ∀ cs : List Char, (bytes cs).length = byteCount cs
  | [] => rfl
  | c :: cs => by
    rw [bytes_cons, List.length_append, String.length_utf8EncodeChar, length_bytes cs, byteCount_cons]

theorem eq_of_utf8EncodeChar_append {d : Char} {x y : List UInt8}
    (h : String.utf8EncodeChar c ++ x = String.utf8EncodeChar d ++ y) : c = d := by
  have hc := ByteArray.utf8DecodeChar?_utf8EncodeChar_append (b := x.toByteArray) (c := c)
  have hd := ByteArray.utf8DecodeChar?_utf8EncodeChar_append (b := y.toByteArray) (c := d)
  rw [← List.toByteArray_append, h, List.toByteArray_append, hd] at hc
  exact (Option.some.inj hc).symm

theorem prefix_of_bytes_prefix : ∀ {u v : List Char}, bytes u <+: bytes v → u <+: v
  | [], v, _ => List.nil_prefix
  | c :: u, [], h => by
    have hnil := List.prefix_nil.1 h
    rw [bytes_cons, List.append_eq_nil_iff] at hnil
    exact absurd hnil.1 String.utf8EncodeChar_ne_nil
  | c :: u, d :: v, ⟨x, hx⟩ => by
    rw [bytes_cons, bytes_cons, List.append_assoc] at hx
    obtain rfl := eq_of_utf8EncodeChar_append hx
    exact List.cons_prefix_cons.2
      ⟨rfl, prefix_of_bytes_prefix ⟨x, List.append_cancel_left hx⟩⟩

/-- A character starts where a byte stands that starts characters. -/
theorem exists_of_drop_bytes : ∀ {text : List Char} {pos : Nat} {x : List UInt8},
    (bytes text).drop pos = String.utf8EncodeChar c ++ x →
      ∃ u v, text = u ++ v ∧ byteCount u = pos
  | text, 0, _, _ => ⟨[], text, rfl, rfl⟩
  | [], pos + 1, _, h => by
    rw [bytes, List.flatMap_nil, List.drop_nil, eq_comm, List.append_eq_nil_iff] at h
    exact absurd h.1 String.utf8EncodeChar_ne_nil
  | d :: text, pos + 1, x, h => by
    rw [bytes_cons] at h
    by_cases hlt : pos + 1 < (String.utf8EncodeChar d).length
    · -- The byte would be a later one of `d`, and none of those starts a character.
      have hpos : 0 < (String.utf8EncodeChar c).length := by
        rw [String.length_utf8EncodeChar]
        exact c.utf8Size_pos
      have hhead := congrArg (·[0]?) h
      simp only [List.getElem?_drop, Nat.add_zero] at hhead
      rw [List.getElem?_append_left hlt, List.getElem?_append_left hpos,
        List.getElem?_eq_getElem hlt, List.getElem?_eq_getElem hpos, Option.some.injEq] at hhead
      have hfirst := @UInt8.isUTF8FirstByte_getElem_utf8EncodeChar c 0 hpos
      rw [← hhead, UInt8.isUTF8FirstByte_getElem_utf8EncodeChar] at hfirst
      simp at hfirst
    · have hsize := String.length_utf8EncodeChar d
      rw [List.drop_append, List.drop_eq_nil_of_le (Nat.le_of_not_lt hlt), List.nil_append] at h
      obtain ⟨u, v, rfl, hu⟩ := exists_of_drop_bytes h
      refine ⟨d :: u, v, rfl, ?_⟩
      rw [byteCount_cons, hu]
      omega

/-- The bytes of a part of a text are found only where the text has that part. -/
theorem exists_of_bytes_prefix {w : List Char} (hw : w ≠ [])
    (h : bytes w <+: (bytes text).drop pos) : ∃ u v, text = u ++ (w ++ v) ∧ byteCount u = pos := by
  obtain ⟨c, w, rfl⟩ := List.exists_cons_of_ne_nil hw
  obtain ⟨x, hx⟩ := h
  rw [bytes_cons, List.append_assoc] at hx
  obtain ⟨u, v, rfl, rfl⟩ := exists_of_drop_bytes hx.symm
  rw [bytes_append, List.drop_left' (length_bytes u), ← List.append_assoc] at hx
  obtain ⟨v, rfl⟩ := prefix_of_bytes_prefix (u := c :: w) ⟨x, hx⟩
  exact ⟨u, v, rfl, rfl⟩

theorem take_drop_bytes (u w v : List Char) :
    ((bytes (u ++ (w ++ v))).drop (byteCount u)).take (byteCount w) = bytes w := by
  rw [bytes_append, List.drop_left' (length_bytes u), bytes_append, List.take_left' (length_bytes w)]

/-- Where the same bytes stand as in a part of another text, that part stands. -/
theorem exists_of_take_drop_bytes_eq {w : List Char} (hw : w ≠ [])
    (h : ((bytes text).drop pos).take (byteCount w) = bytes w) :
    ∃ u v, text = u ++ (w ++ v) ∧ byteCount u = pos :=
  exists_of_bytes_prefix hw (h ▸ List.take_prefix _ _)

end MagicCircle.Text
