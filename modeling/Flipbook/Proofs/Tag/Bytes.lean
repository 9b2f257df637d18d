import Flipbook.Proofs.Text.Buffer

/-!
# Codes as beginnings of a byte string

Main statement: `candidatesOfBytes_perm`. The search for tags in a byte string cuts three,
two and one bytes off the front and looks up each cut that is a text. Byte strings need
not be texts, nor cuts of them, but no tag is lost on that account: a cut as long as a
mnemonic that begins like it is this mnemonic, and so a text
(`candidateOfBytes?_eq_some_iff`).

Animation text is searched by characters. That finds what the search in the bytes of the
text finds (`candidatesOfBytes_bytes`).
-/

namespace Flipbook.Tag.Kind

open Text (bytes)

variable {stored : List UInt8} {kind : Kind} {n : Nat}

theorem all_nodup : all.Nodup := by
  decide

theorem length_mnemonic (kind : Kind) : kind.mnemonic.length = kind.code.length :=
  String.length_ofList

theorem bytes_mnemonic (kind : Kind) : kind.mnemonic.toUTF8.data.toList = bytes kind.code := by
  rw [Text.toList_toUTF8, mnemonic, String.toList_ofList]

/-- A code has a byte for each of its characters. -/
theorem length_bytes_code (kind : Kind) : (bytes kind.code).length = kind.code.length := by
  rw [Text.length_bytes, (Text.isAscii_code kind).byteLength_eq]

/-- Bytes that are looked up are compared with the bytes of codes. -/
theorem bind_ofMnemonic?_eq_some_iff {start : List UInt8} :
    (String.fromUTF8? start.toByteArray).bind ofMnemonic? = some kind ↔
      bytes kind.code = start := by
  have hbytes : kind.mnemonic.toUTF8 = start.toByteArray ↔ bytes kind.code = start := by
    rw [ByteArray.ext_iff, ← Array.toList_inj, List.toList_data_toByteArray, bytes_mnemonic]
  simp only [Option.bind_eq_some_iff, Text.fromUTF8?_eq_some_iff, ofMnemonic?_eq_some_iff]
  rw [exists_eq_right', hbytes]

/-- The candidate of a length is the kind whose code has this length and begins the bytes. -/
theorem candidateOfBytes?_eq_some_iff :
    candidateOfBytes? stored n = some kind ↔
      bytes kind.code <+: stored ∧ kind.code.length = n := by
  rw [← length_bytes_code, candidateOfBytes?]
  exact look_take_eq_some_iff fun _ => bind_ofMnemonic?_eq_some_iff

theorem mem_candidatesOfBytes_iff :
    kind ∈ candidatesOfBytes stored ↔ bytes kind.code <+: stored :=
  mem_filterMap_find_iff fun _ _ => candidateOfBytes?_eq_some_iff

/-- The search in the bytes of a text finds what the search in the text finds. -/
theorem candidatesOfBytes_bytes (text : List Char) :
    candidatesOfBytes (bytes text) = candidates text := by
  have hsame : candidateOfBytes? (bytes text) = candidate? text := by
    funext n
    ext kind
    rw [candidateOfBytes?_eq_some_iff, candidate?_eq_some_iff, Text.bytes_prefix_iff]
  rw [candidatesOfBytes, candidates, hsame]

/-- The candidates of a byte string, of a text or not, are the kinds of the vocabulary
whose mnemonic's bytes begin it. Each of them is there once, and of two of them the one
with the longer mnemonic comes first. -/
theorem candidatesOfBytes_perm (stored : List UInt8) :
    (candidatesOfBytes stored).Perm
        (all.filter fun kind => kind.mnemonic.toUTF8.data.toList <+: stored) ∧
      (candidatesOfBytes stored).Pairwise fun a b =>
        b.mnemonic.length < a.mnemonic.length := by
  have hdesc : (candidatesOfBytes stored).Pairwise fun a b =>
      b.mnemonic.length < a.mnemonic.length := by
    simp only [length_mnemonic]
    exact pairwise_filterMap_find fun _ _ => candidateOfBytes?_eq_some_iff
  -- what comes later is shorter, so it is not the same
  have hnodup : (candidatesOfBytes stored).Nodup := by
    refine hdesc.imp ?_
    rintro a b hlt rfl
    exact Nat.lt_irrefl _ hlt
  refine ⟨?_, hdesc⟩
  rw [List.perm_ext_iff_of_nodup hnodup (all_nodup.filter _)]
  intro kind
  rw [mem_candidatesOfBytes_iff, List.mem_filter, decide_eq_true_iff, bytes_mnemonic,
    and_iff_right (mem_all kind)]

/-- A byte that begins no character does not hide the code in front of it. -/
example : candidatesOfBytes [0x73, 0x6D, 0xC3] = [.sound] := by decide +kernel

end Flipbook.Tag.Kind
