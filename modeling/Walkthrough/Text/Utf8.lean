import Walkthrough.Text.Basic

/-!
# UTF-8

The bytes of a text, and the text of a byte list.  Reading accepts exactly what writing
produces: `Text.ofUtf8?_eq_some_iff`.
-/

namespace Walkthrough.Text

def toUtf8 (t : Text) : List UInt8 := t.flatMap String.utf8EncodeChar

def ofUtf8? (bytes : List UInt8) : Option Text :=
  bytes.toByteArray.utf8Decode?.map (·.toList)

theorem toByteArray_toUtf8 (t : Text) : (toUtf8 t).toByteArray = t.utf8Encode := rfl

theorem ofUtf8?_toUtf8 (t : Text) : ofUtf8? (toUtf8 t) = some t := by
  simp [ofUtf8?, toByteArray_toUtf8]

theorem eq_toUtf8_of_ofUtf8? {bytes : List UInt8} {t : Text} (h : ofUtf8? bytes = some t) :
    bytes = toUtf8 t := by
  obtain ⟨chars, hd, rfl⟩ := Option.map_eq_some_iff.1 h
  have valid : bytes.toByteArray.utf8Decode?.isSome := by simp [hd]
  have same : bytes.toByteArray = chars.toList.utf8Encode := by
    have := ByteArray.utf8Encode_get_utf8Decode? (b := bytes.toByteArray) (h := valid)
    simpa [hd] using this.symm
  have := congrArg (fun b => b.data.toList) same
  simpa [← toByteArray_toUtf8] using this

theorem ofUtf8?_eq_some_iff {bytes : List UInt8} {t : Text} :
    ofUtf8? bytes = some t ↔ bytes = toUtf8 t :=
  ⟨eq_toUtf8_of_ofUtf8?, fun h => h ▸ ofUtf8?_toUtf8 t⟩

end Walkthrough.Text
