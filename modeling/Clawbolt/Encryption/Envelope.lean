/-
The encryption envelope (security/encryption.py): a text sealed under a key of its own, and that key wrapped by a provider.

Fernet is a parameter. Its tokens are the base64 of a payload, so what it makes of a token depends on the decoded bytes only.
The random and the time that go into a payload are a nonce. `calls` are the encryptions that were made so far; Fernet is
correct for them, and authenticated: what opens under one of their keys was sealed under it.

- `parse_serialize`: an envelope is taken apart into what it was put together from;
- `decrypt_encrypt`: decrypting what was encrypted, with any provider that unwraps what it wrapped.
-/
import Mathlib.Tactic
import Clawbolt.Core.Base64
import Clawbolt.Core.Utf8

namespace Clawbolt.Encryption

open Text (Str)

abbrev Bytes := List UInt8

/-! ## Fernet -/

structure Fernet where
  /-- the bytes are a key: `Fernet(key)` does not raise -/
  isKey : Bytes → Bool
  payload : Bytes → ℕ → Bytes → Bytes
  openPayload : Bytes → Bytes → Option Bytes

def Fernet.encrypt (F : Fernet) (key : Bytes) (nonce : ℕ) (data : Bytes) : Bytes := Base64.encode (F.payload key nonce data)

/-- none is an `InvalidToken` -/
def Fernet.decrypt (F : Fernet) (key token : Bytes) : Option Bytes := (Base64.decode token).bind (F.openPayload key)

theorem Fernet.decrypt_encrypt {F : Fernet} {key data : Bytes} {nonce : ℕ}
    (h : F.openPayload key (F.payload key nonce data) = some data) : F.decrypt key (F.encrypt key nonce data) = some data := by
  rw [Fernet.decrypt, Fernet.encrypt, Base64.decode_encode, Option.bind_some, h]

/-! ## The code -/

inductive Raised where
  | encryptionError
  | invalidToken
  | unicodeDecodeError
  | valueError
deriving DecidableEq, Repr

structure KEKProvider where
  wrap : ℕ → Bytes → Str × Bytes
  unwrap : Str → Bytes → Except Raised Bytes

def kekId : Str := "local".toList

/-- `LocalKEKProvider` with its derived key -/
def localProvider (F : Fernet) (kek : Bytes) : KEKProvider where
  wrap nonce dek := (kekId, F.encrypt kek nonce dek)
  unwrap id wrapped :=
    if id ≠ kekId then .error .valueError
    else
      match F.decrypt kek wrapped with
      | some dek => .ok dek
      | none => .error .invalidToken

def envelopePrefix : Str := "clw1".toList

/-- `b.decode()` of bytes that are ASCII -/
def asciiText (b : Bytes) : Str := b.map fun x => Char.ofNat x.toNat

/-- `_serialize` -/
def serialize (id : Str) (wrapped : Bytes) (ciphertext : Str) : Except Raised Str :=
  if '.' ∈ id then .error .valueError
  else .ok (envelopePrefix ++ '.' :: (id ++ '.' :: (asciiText (Base64.encode wrapped) ++ '.' :: ciphertext)))

/-- `t.split(".", n)` -/
def splitDots : ℕ → Str → List Str
  | 0, t => [t]
  | n + 1, t =>
    match Text.splitFirst ['.'] t with
    | some (a, b) => a :: splitDots n b
    | none => [t]

/-- `_parse` -/
def parse (envelope : Str) : Except Raised (Str × Bytes × Str) :=
  match splitDots 3 envelope with
  | [first, id, wrappedB64, ciphertext] =>
    if first ≠ envelopePrefix then .error .encryptionError
    else
      match Base64.decode (Utf8.encode wrappedB64) with
      | some wrapped => .ok (id, wrapped, ciphertext)
      | none => .error .encryptionError
  | _ => .error .encryptionError

/-- the key and the nonces that `generate_key` and Fernet draw come with the call -/
def encrypt (F : Fernet) (provider : KEKProvider) (dek : Bytes) (wrapNonce nonce : ℕ) (plaintext : Str) : Except Raised Str :=
  let (id, wrapped) := provider.wrap wrapNonce dek
  serialize id wrapped (asciiText (F.encrypt dek nonce (Utf8.encode plaintext)))

/-- the `try` block of `decrypt` -/
def openParts (F : Fernet) (provider : KEKProvider) (id : Str) (wrapped : Bytes) (ciphertext : Str) : Except Raised Str := do
  let dek ← provider.unwrap id wrapped
  if F.isKey dek = false then .error .valueError
  else
    match F.decrypt dek (Utf8.encode ciphertext) with
    | none => .error .invalidToken
    | some data =>
      match Utf8.decode data with
      | none => .error .unicodeDecodeError
      | some plaintext => .ok plaintext

def decrypt (F : Fernet) (provider : KEKProvider) (envelope : Str) : Except Raised Str := do
  let (id, wrapped, ciphertext) ← parse envelope
  match openParts F provider id wrapped ciphertext with
  | .error .invalidToken => .error .encryptionError
  | .error .unicodeDecodeError => .error .encryptionError
  | result => result

/-! ## ASCII -/

theorem encode_asciiText {b : Bytes} (h : ∀ x ∈ b, x.toNat < 128) : Utf8.encode (asciiText b) = b := by
  have hchar : ∀ n < 128, String.utf8EncodeChar (Char.ofNat n) = [UInt8.ofNat n] := by decide
  induction b with
  | nil => rfl
  | cons x b ih =>
    have hx := hchar x.toNat (h x List.mem_cons_self)
    rw [UInt8.ofNat_toNat] at hx
    rw [asciiText, List.map_cons, Utf8.encode_cons, hx, List.singleton_append]
    exact congrArg _ (ih fun y hy => h y (List.mem_cons_of_mem x hy))

/-- an encoding is a text without a full stop -/
theorem asciiText_base64 (b : Bytes) : Utf8.encode (asciiText (Base64.encode b)) = Base64.encode b ∧
    '.' ∉ asciiText (Base64.encode b) := by
  have hplain := Base64.encode_plain b
  refine ⟨encode_asciiText fun x hx => (hplain x hx).1, fun hmem => ?_⟩
  obtain ⟨x, hx, hdot⟩ := List.mem_map.1 hmem
  have hchar : ∀ n < 128, Char.ofNat n = '.' → n = 46 := by decide
  exact (hplain x hx).2 (hchar x.toNat (hplain x hx).1 hdot)

/-! ## Taking an envelope apart -/

theorem splitFirst_dot {a b : Str} (h : '.' ∉ a) : Text.splitFirst ['.'] (a ++ '.' :: b) = some (a, b) := by
  induction a with
  | nil => rfl
  | cons c a ih =>
    obtain ⟨hc, ha⟩ := not_or.1 (fun h' => h (List.mem_cons.2 h'))
    have hne : ['.'].isPrefixOf (c :: (a ++ '.' :: b)) = false := by simp [List.isPrefixOf, hc]
    rw [List.cons_append, Text.splitFirst, if_neg (by rw [hne]; exact Bool.false_ne_true), ih ha]
    rfl

theorem splitDots_dot {a b : Str} (h : '.' ∉ a) (n : ℕ) : splitDots (n + 1) (a ++ '.' :: b) = a :: splitDots n b := by
  rw [splitDots, splitFirst_dot h]

/-- **An envelope taken apart.** -/
theorem parse_serialize {id ciphertext e : Str} {wrapped : Bytes} (h : serialize id wrapped ciphertext = .ok e) :
    parse e = .ok (id, wrapped, ciphertext) := by
  unfold serialize at h
  split_ifs at h with hid
  obtain rfl := Except.ok.inj h
  obtain ⟨hencode, hdot⟩ := asciiText_base64 wrapped
  have hsplit : splitDots 3 (envelopePrefix ++ '.' :: (id ++ '.' :: (asciiText (Base64.encode wrapped) ++ '.' :: ciphertext))) =
      [envelopePrefix, id, asciiText (Base64.encode wrapped), ciphertext] := by
    rw [splitDots_dot (by decide), splitDots_dot hid, splitDots_dot hdot]
    rfl
  simp only [parse, hsplit, ne_eq, not_true_eq_false, if_false, hencode, Base64.decode_encode]

/-- a string that cannot be taken apart is malformed -/
theorem parse_error {s : Str} {e : Raised} (h : parse s = .error e) : e = .encryptionError := by
  unfold parse at h
  split at h
  · split_ifs at h with hfirst
    · exact (Except.error.inj h).symm
    · split at h
      · cases h
      · exact (Except.error.inj h).symm
  · exact (Except.error.inj h).symm

/-! ## Reading back -/

/-- what is in the parts of an envelope, the key unwrapped -/
theorem openParts_eq {F : Fernet} {provider : KEKProvider} {id ciphertext : Str} {wrapped dek : Bytes}
    (hunwrap : provider.unwrap id wrapped = .ok dek) (hkey : F.isKey dek = true) {plaintext : Str}
    (hopen : F.decrypt dek (Utf8.encode ciphertext) = some (Utf8.encode plaintext)) :
    openParts F provider id wrapped ciphertext = .ok plaintext := by
  rw [openParts, hunwrap]
  simp only [bind, Except.bind, hkey, Bool.true_eq_false, if_false, hopen, Utf8.decode_encode]

theorem decrypt_of_parse {F : Fernet} {provider : KEKProvider} {e id ciphertext : Str} {wrapped : Bytes}
    (h : parse e = .ok (id, wrapped, ciphertext)) :
    decrypt F provider e = match openParts F provider id wrapped ciphertext with
      | .error .invalidToken => .error .encryptionError
      | .error .unicodeDecodeError => .error .encryptionError
      | result => result := by
  rw [decrypt, h]
  rfl

/-- **Reading back.** With a provider that unwraps what it wrapped, and Fernet correct for the text. -/
theorem decrypt_encrypt {F : Fernet} {provider : KEKProvider} {dek : Bytes} {wrapNonce nonce : ℕ} {plaintext : Str}
    (hid : '.' ∉ (provider.wrap wrapNonce dek).1)
    (hunwrap : provider.unwrap (provider.wrap wrapNonce dek).1 (provider.wrap wrapNonce dek).2 = .ok dek)
    (hkey : F.isKey dek = true)
    (hcorrect : F.openPayload dek (F.payload dek nonce (Utf8.encode plaintext)) = some (Utf8.encode plaintext)) :
    ∃ e, encrypt F provider dek wrapNonce nonce plaintext = .ok e ∧ decrypt F provider e = .ok plaintext := by
  have hserialize : ∃ e, encrypt F provider dek wrapNonce nonce plaintext = .ok e := by
    simp only [encrypt, serialize, if_neg hid]
    exact ⟨_, rfl⟩
  obtain ⟨e, he⟩ := hserialize
  refine ⟨e, he, ?_⟩
  rw [decrypt_of_parse (parse_serialize he), openParts_eq hunwrap hkey]
  rw [Fernet.encrypt, (asciiText_base64 _).1]
  exact Fernet.decrypt_encrypt hcorrect

end Clawbolt.Encryption
