import Inquiry.Digest.Sha256
import Inquiry.Transcript

/-!
# Fingerprints

A transcript is known by its *fingerprint*, the digest of its encoding. The
encoding gives every count and length before the things counted, as 64-bit
words, so that no two transcripts share one.
-/

namespace Inquiry

namespace Transcript

/-- A number as a 64-bit word, least significant byte first. -/
def encodeWord (n : Nat) : List UInt8 :=
  Bytes.littleEndian 8 n

/-- A text in UTF-8, after its length in bytes. -/
def encodeText (t : String) : List UInt8 :=
  encodeWord t.utf8ByteSize ++ t.toUTF8.data.toList

/-- A list, after its length. -/
def encodeList {α : Type} (encode : α → List UInt8) (l : List α) : List UInt8 :=
  encodeWord l.length ++ l.flatMap encode

/-- The encoding of an observation. -/
def encodeObservation (o : Observation) : List UInt8 :=
  encodeText o.text ++ encodeWord o.budget

/-- The encoding of a response. -/
def encodeResponse (r : Response) : List UInt8 :=
  encodeText r.text ++ encodeWord r.elapsed

/-- The encoding of a transcript: the observations and then the responses. -/
def encode (t : Transcript) : List UInt8 :=
  encodeList encodeObservation t.observations ++ encodeList encodeResponse t.responses

/-- The fingerprint of a transcript, in hexadecimal digits. -/
def fingerprint (t : Transcript) : String :=
  String.ofList ((Sha256.digest t.encode).flatMap Bytes.hex)

end Transcript

end Inquiry
