import GraphReasoner.Storage.FileTree

/-!
# Texts as bytes

A text is stored as the bytes of its encoding, and these bytes encode no other text
(`GraphReasoner.Bytes.text?_ofText`). The bytes are listed by a loop over positions, which
`GraphReasoner.Bytes.toList_loop` turns into what is left of the list at a position.
-/

namespace GraphReasoner.Bytes

theorem get!_eq {bytes : ByteArray} {i : Nat} (h : i < bytes.data.toList.length) :
    bytes.get! i = bytes.data.toList[i] := by
  have hi : i < bytes.data.size := by simpa using h
  change bytes.data[i]! = _
  rw [getElem!_pos bytes.data i hi, Array.getElem_toList]

theorem toList_loop (bytes : ByteArray) (i : Nat) (sofar : List UInt8) :
    ByteArray.toList.loop bytes i sofar = sofar.reverse ++ bytes.data.toList.drop i := by
  fun_induction ByteArray.toList.loop bytes i sofar with
  | case1 i sofar hi ih =>
    have hlength : i < bytes.data.toList.length := by simpa using hi
    rw [ih, List.reverse_cons, List.append_assoc, List.singleton_append, get!_eq hlength,
      ← List.drop_eq_getElem_cons hlength]
  | case2 i sofar hi =>
    have hlength : bytes.data.toList.length ≤ i := by simpa using hi
    rw [List.drop_eq_nil_of_le hlength, List.append_nil]

/-- **The bytes of a text encode it.** -/
@[simp] theorem text?_ofText (text : String) : text? (ofText text) = some text := by
  have hbytes : (⟨(ofText text).toArray⟩ : ByteArray) = text.toUTF8 := by
    rw [ofText, ByteArray.toList, toList_loop]
    simp
  rw [text?, hbytes]
  exact dif_pos text.isValidUTF8

end GraphReasoner.Bytes
