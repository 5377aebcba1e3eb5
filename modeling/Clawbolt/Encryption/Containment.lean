/-
What the local provider makes of any string. The encryptions made so far are a log of records. A string may be an envelope
of the log, another spelling of one (Base64 decoding is lenient), carry another provider's id, or none of these.

- `decrypt_cases`: what decrypting gives in each case;
- `contained_iff`: when a string that is no envelope is rejected as one.
-/
import Mathlib.Tactic
import Clawbolt.Encryption.Envelope

namespace Clawbolt.Encryption

open Text (Str)

/-! ## The log -/

/-- one call of `encrypt`, with what it drew -/
structure Record where
  plaintext : Str
  dek : Bytes
  wrapNonce : ℕ
  nonce : ℕ

/-- the two calls of Fernet in it: key, nonce and data -/
def Record.calls (kek : Bytes) (r : Record) : List (Bytes × ℕ × Bytes) :=
  [(kek, r.wrapNonce, r.dek), (r.dek, r.nonce, Utf8.encode r.plaintext)]

def calls (kek : Bytes) (log : List Record) : List (Bytes × ℕ × Bytes) := log.flatMap (Record.calls kek)

/-- Fernet is correct for the calls of the log, and what opens under one of its keys was sealed by one of them. The keys are
keys of Fernet, and were each drawn afresh. -/
structure Authentic (F : Fernet) (kek : Bytes) (log : List Record) : Prop where
  keys : ∀ r ∈ log, F.isKey r.dek = true
  fresh : (kek :: log.map Record.dek).Nodup
  correct : ∀ c ∈ calls kek log, F.openPayload c.1 (F.payload c.1 c.2.1 c.2.2) = some c.2.2
  sealed : ∀ k ∈ kek :: log.map Record.dek, ∀ x m, F.openPayload k x = some m →
    ∃ n, (k, n, m) ∈ calls kek log ∧ x = F.payload k n m

variable {F : Fernet} {kek : Bytes} {log : List Record}

theorem mem_calls {c : Bytes × ℕ × Bytes} : c ∈ calls kek log ↔
    ∃ r ∈ log, c = (kek, r.wrapNonce, r.dek) ∨ c = (r.dek, r.nonce, Utf8.encode r.plaintext) := by
  simp only [calls, List.mem_flatMap, Record.calls, List.mem_cons, List.not_mem_nil, or_false]

theorem Authentic.kek_ne (h : Authentic F kek log) {r : Record} (hr : r ∈ log) : r.dek ≠ kek := by
  intro heq
  exact (List.nodup_cons.1 h.fresh).1 (heq ▸ List.mem_map_of_mem hr)

/-- a key names its record -/
theorem Authentic.record_eq (h : Authentic F kek log) {r r' : Record} (hr : r ∈ log) (hr' : r' ∈ log) (heq : r.dek = r'.dek) :
    r = r' := List.inj_on_of_nodup_map (List.nodup_cons.1 h.fresh).2 hr hr' heq

theorem Authentic.open_wrap (h : Authentic F kek log) {r : Record} (hr : r ∈ log) :
    F.openPayload kek (F.payload kek r.wrapNonce r.dek) = some r.dek :=
  h.correct _ (mem_calls.2 ⟨r, hr, .inl rfl⟩)

theorem Authentic.open_text (h : Authentic F kek log) {r : Record} (hr : r ∈ log) :
    F.openPayload r.dek (F.payload r.dek r.nonce (Utf8.encode r.plaintext)) = some (Utf8.encode r.plaintext) :=
  h.correct _ (mem_calls.2 ⟨r, hr, .inr rfl⟩)

/-- what opens under the provider's key is a wrapped key of the log -/
theorem Authentic.of_open_kek (h : Authentic F kek log) {x m : Bytes} (hopen : F.openPayload kek x = some m) :
    ∃ r ∈ log, m = r.dek ∧ x = F.payload kek r.wrapNonce r.dek := by
  obtain ⟨n, hcall, rfl⟩ := h.sealed kek List.mem_cons_self x m hopen
  obtain ⟨r, hr, heq | heq⟩ := mem_calls.1 hcall
  · simp only [Prod.mk.injEq] at heq
    obtain ⟨-, rfl, rfl⟩ := heq
    exact ⟨r, hr, rfl, rfl⟩
  · exact absurd (congrArg Prod.fst heq).symm (h.kek_ne hr)

/-- what opens under a record's key is its text -/
theorem Authentic.of_open_dek (h : Authentic F kek log) {r : Record} (hr : r ∈ log) {x m : Bytes}
    (hopen : F.openPayload r.dek x = some m) :
    m = Utf8.encode r.plaintext ∧ x = F.payload r.dek r.nonce (Utf8.encode r.plaintext) := by
  obtain ⟨n, hcall, rfl⟩ := h.sealed r.dek (List.mem_cons_of_mem _ (List.mem_map_of_mem hr)) x m hopen
  obtain ⟨r', hr', heq | heq⟩ := mem_calls.1 hcall
  · exact absurd (congrArg Prod.fst heq) (h.kek_ne hr)
  · obtain rfl := h.record_eq hr hr' (congrArg Prod.fst heq)
    simp only [Prod.mk.injEq, true_and] at heq
    obtain ⟨rfl, rfl⟩ := heq
    exact ⟨rfl, rfl⟩

/-! ## Spellings -/

/-- the envelope of a record -/
def Seals (F : Fernet) (kek : Bytes) (r : Record) (s : Str) : Prop :=
  encrypt F (localProvider F kek) r.dek r.wrapNonce r.nonce r.plaintext = .ok s

/-- the parts of the string hold the record's two payloads, in whatever spelling -/
def Spells (F : Fernet) (kek : Bytes) (r : Record) (s : Str) : Prop :=
  ∃ wrapped ciphertext, parse s = .ok (kekId, wrapped, ciphertext) ∧
    Base64.decode wrapped = some (F.payload kek r.wrapNonce r.dek) ∧
    Base64.decode (Utf8.encode ciphertext) = some (F.payload r.dek r.nonce (Utf8.encode r.plaintext))

theorem Seals.spells {r : Record} {s : Str} (h : Seals F kek r s) : Spells F kek r s := by
  refine ⟨_, _, parse_serialize h, ?_, ?_⟩
  · exact Base64.decode_encode _
  · rw [Fernet.encrypt, (asciiText_base64 _).1, Base64.decode_encode]

/-- a string spells one record at most -/
theorem Spells.unique (h : Authentic F kek log) {r r' : Record} (hr : r ∈ log) (hr' : r' ∈ log) {s : Str}
    (hs : Spells F kek r s) (hs' : Spells F kek r' s) : r = r' := by
  obtain ⟨w, c, hparse, hwrap, -⟩ := hs
  obtain ⟨w', c', hparse', hwrap', -⟩ := hs'
  have hw : w = w' := by
    have hparts := Except.ok.inj (hparse.symm.trans hparse')
    exact congrArg (fun p => p.2.1) hparts
  have hpayload := Option.some.inj ((hw ▸ hwrap).symm.trans hwrap')
  have hopen := h.open_wrap hr
  rw [hpayload, h.open_wrap hr'] at hopen
  exact h.record_eq hr hr' (Option.some.inj hopen).symm

/-! ## Decrypting -/

theorem localProvider_unwrap (wrapped : Bytes) : (localProvider F kek).unwrap kekId wrapped =
    (F.decrypt kek wrapped).elim (.error .invalidToken) .ok := by
  simp only [localProvider, ne_eq, not_true_eq_false, if_false]
  cases F.decrypt kek wrapped <;> rfl

theorem openParts_unknown {id : Str} (h : id ≠ kekId) (wrapped : Bytes) (ciphertext : Str) :
    openParts F (localProvider F kek) id wrapped ciphertext = .error .valueError := by
  have hunwrap : (localProvider F kek).unwrap id wrapped = .error .valueError := if_pos h
  rw [openParts, hunwrap]
  rfl

theorem openParts_unwrapped_none {wrapped : Bytes} (h : F.decrypt kek wrapped = none) (ciphertext : Str) :
    openParts F (localProvider F kek) kekId wrapped ciphertext = .error .invalidToken := by
  rw [openParts, localProvider_unwrap, h]
  rfl

theorem openParts_token_none {wrapped dek : Bytes} (hwrapped : F.decrypt kek wrapped = some dek) (hkey : F.isKey dek = true)
    {ciphertext : Str} (h : F.decrypt dek (Utf8.encode ciphertext) = none) :
    openParts F (localProvider F kek) kekId wrapped ciphertext = .error .invalidToken := by
  rw [openParts, localProvider_unwrap, hwrapped, Option.elim_some]
  simp only [bind, Except.bind, hkey, Bool.true_eq_false, if_false, h]

/-- the parts of a string with the provider's id: the text of the record they spell, or an invalid token -/
theorem openParts_cases (h : Authentic F kek log) {s ciphertext : Str} {wrapped : Bytes}
    (hparse : parse s = .ok (kekId, wrapped, ciphertext)) :
    (∃ r ∈ log, Spells F kek r s ∧
      openParts F (localProvider F kek) kekId wrapped ciphertext = .ok r.plaintext) ∨
    ((∀ r ∈ log, ¬ Spells F kek r s) ∧
      openParts F (localProvider F kek) kekId wrapped ciphertext = .error .invalidToken) := by
  -- a spelling is one of these two parts
  have hparts : ∀ r, Spells F kek r s → Base64.decode wrapped = some (F.payload kek r.wrapNonce r.dek) ∧
      Base64.decode (Utf8.encode ciphertext) = some (F.payload r.dek r.nonce (Utf8.encode r.plaintext)) := by
    rintro r ⟨w, c, hparse', hwrap, htext⟩
    have heq := Except.ok.inj (hparse.symm.trans hparse')
    simp only [Prod.mk.injEq, true_and] at heq
    obtain ⟨rfl, rfl⟩ := heq
    exact ⟨hwrap, htext⟩
  cases hunwrap : F.decrypt kek wrapped with
  | none =>
    refine .inr ⟨fun r hr hs => ?_, openParts_unwrapped_none hunwrap ciphertext⟩
    rw [Fernet.decrypt, (hparts r hs).1, Option.bind_some, h.open_wrap hr] at hunwrap
    cases hunwrap
  | some dek =>
    obtain ⟨x, hx, hopen⟩ := Option.bind_eq_some_iff.1 hunwrap
    obtain ⟨r, hr, rfl, rfl⟩ := h.of_open_kek hopen
    cases htoken : F.decrypt r.dek (Utf8.encode ciphertext) with
    | none =>
      refine .inr ⟨fun r' hr' hs => ?_, openParts_token_none hunwrap (h.keys r hr) htoken⟩
      have hpayload := Option.some.inj (hx.symm.trans (hparts r' hs).1)
      rw [hpayload, h.open_wrap hr'] at hopen
      obtain rfl := h.record_eq hr' hr (Option.some.inj hopen)
      rw [Fernet.decrypt, (hparts r' hs).2, Option.bind_some, h.open_text hr] at htoken
      cases htoken
    | some data =>
      obtain ⟨y, hy, hopen'⟩ := Option.bind_eq_some_iff.1 htoken
      obtain ⟨rfl, rfl⟩ := h.of_open_dek hr hopen'
      refine .inl ⟨r, hr, ⟨wrapped, ciphertext, hparse, hx, hy⟩, ?_⟩
      refine openParts_eq ?_ (h.keys r hr) htoken
      rw [localProvider_unwrap, hunwrap, Option.elim_some]

/-- **What decrypting gives.** -/
theorem decrypt_cases (h : Authentic F kek log) (s : Str) :
    (parse s = .error .encryptionError ∧ decrypt F (localProvider F kek) s = .error .encryptionError) ∨
    (∃ id wrapped ciphertext, parse s = .ok (id, wrapped, ciphertext) ∧ id ≠ kekId ∧
      decrypt F (localProvider F kek) s = .error .valueError) ∨
    (∃ r ∈ log, Spells F kek r s ∧ decrypt F (localProvider F kek) s = .ok r.plaintext) ∨
    (∃ wrapped ciphertext, parse s = .ok (kekId, wrapped, ciphertext) ∧ (∀ r ∈ log, ¬ Spells F kek r s) ∧
      decrypt F (localProvider F kek) s = .error .encryptionError) := by
  cases hparse : parse s with
  | error e =>
    refine .inl ?_
    obtain rfl := parse_error hparse
    refine ⟨rfl, ?_⟩
    rw [decrypt, hparse]
    rfl
  | ok parts =>
    obtain ⟨id, wrapped, ciphertext⟩ := parts
    refine .inr ?_
    rw [decrypt_of_parse hparse]
    by_cases hid : id = kekId
    · subst hid
      obtain ⟨r, hr, hs, hopen⟩ | ⟨hno, hopen⟩ := openParts_cases h hparse
      · exact .inr (.inl ⟨r, hr, hs, by rw [hopen]⟩)
      · exact .inr (.inr ⟨wrapped, ciphertext, rfl, hno, by rw [hopen]⟩)
    · exact .inl ⟨id, wrapped, ciphertext, rfl, hid, by rw [openParts_unknown hid]⟩

/-! ## Containment -/

/-- an envelope of the log gives its text, any other string is an encryption error -/
def Contained (F : Fernet) (kek : Bytes) (log : List Record) (s : Str) : Prop :=
  (∃ r ∈ log, Seals F kek r s ∧ decrypt F (localProvider F kek) s = .ok r.plaintext) ∨
    ((∀ r ∈ log, ¬ Seals F kek r s) ∧ decrypt F (localProvider F kek) s = .error .encryptionError)

/-- a string that can be taken apart carries the provider's id, and is no other spelling of an envelope -/
def Proper (F : Fernet) (kek : Bytes) (log : List Record) (s : Str) : Prop :=
  ∀ id wrapped ciphertext, parse s = .ok (id, wrapped, ciphertext) →
    id = kekId ∧ ∀ r ∈ log, Spells F kek r s → Seals F kek r s

theorem contained_iff (h : Authentic F kek log) (s : Str) : Contained F kek log s ↔ Proper F kek log s := by
  constructor
  · intro hcontained id wrapped ciphertext hparse
    obtain ⟨herr, -⟩ | ⟨id', w, c, hparse', hid, hval⟩ | ⟨r, hr, hs, hok⟩ | ⟨w, c, hparse', hno, herr⟩ := decrypt_cases h s
    · rw [herr] at hparse
      cases hparse
    · -- another id: the error is none of the two outcomes
      obtain ⟨r, -, -, hout⟩ | ⟨-, hout⟩ := hcontained
      · rw [hval] at hout
        cases hout
      · rw [hval] at hout
        cases hout
    · obtain ⟨w, c, hparse', -, -⟩ := hs
      have hid : id = kekId := congrArg Prod.fst (Except.ok.inj (hparse.symm.trans hparse'))
      refine ⟨hid, fun r' hr' hs' => ?_⟩
      obtain ⟨r'', hr'', hseals, -⟩ | ⟨-, hout⟩ := hcontained
      · rwa [Spells.unique h hr' hr'' hs' hseals.spells]
      · rw [hok] at hout
        cases hout
    · have hid : id = kekId := congrArg Prod.fst (Except.ok.inj (hparse.symm.trans hparse'))
      exact ⟨hid, fun r hr hs => absurd hs (hno r hr)⟩
  · intro hproper
    obtain ⟨hparse, herr⟩ | ⟨id, w, c, hparse, hid, -⟩ | ⟨r, hr, hs, hok⟩ | ⟨w, c, -, hno, herr⟩ := decrypt_cases h s
    · refine .inr ⟨fun r hr hseals => ?_, herr⟩
      obtain ⟨w, c, hparse', -⟩ := hseals.spells
      rw [hparse] at hparse'
      cases hparse'
    · exact absurd (hproper id w c hparse).1 hid
    · obtain ⟨w, c, hparse, -⟩ := id hs
      exact .inl ⟨r, hr, (hproper kekId w c hparse).2 r hr hs, hok⟩
    · exact .inr ⟨fun r hr hseals => hno r hr hseals.spells, herr⟩

/-- a text that is returned was encrypted -/
theorem decrypt_mem (h : Authentic F kek log) {s t : Str} (ht : decrypt F (localProvider F kek) s = .ok t) :
    ∃ r ∈ log, r.plaintext = t := by
  obtain ⟨-, hout⟩ | ⟨-, -, -, -, -, hout⟩ | ⟨r, hr, -, hout⟩ | ⟨-, -, -, -, hout⟩ := decrypt_cases h s
  · rw [hout] at ht
    cases ht
  · rw [hout] at ht
    cases ht
  · exact ⟨r, hr, Except.ok.inj (hout.symm.trans ht)⟩
  · rw [hout] at ht
    cases ht

/-- **Round trip and containment.** Correct Fernet gives back what a provider's envelope sealed. Authenticated, it never
gives a text that was not encrypted, and rejects as an encryption error whatever is no envelope, exactly when the string
carries the provider's id wherever it can be taken apart, and is no other spelling of an envelope. -/
theorem round_trip_and_containment (F : Fernet) :
    (∀ (provider : KEKProvider) (dek : Bytes) (wrapNonce nonce : ℕ) (plaintext : Str),
      '.' ∉ (provider.wrap wrapNonce dek).1 →
      provider.unwrap (provider.wrap wrapNonce dek).1 (provider.wrap wrapNonce dek).2 = .ok dek →
      F.isKey dek = true →
      F.openPayload dek (F.payload dek nonce (Utf8.encode plaintext)) = some (Utf8.encode plaintext) →
      ∃ e, encrypt F provider dek wrapNonce nonce plaintext = .ok e ∧ decrypt F provider e = .ok plaintext) ∧
    ∀ (kek : Bytes) (log : List Record), Authentic F kek log →
      (∀ s, Contained F kek log s ↔ Proper F kek log s) ∧
      ∀ s t, decrypt F (localProvider F kek) s = .ok t → ∃ r ∈ log, r.plaintext = t := by
  refine ⟨fun provider dek wrapNonce nonce plaintext hid hunwrap hkey hcorrect => ?_, fun kek log h => ⟨?_, ?_⟩⟩
  · exact decrypt_encrypt hid hunwrap hkey hcorrect
  · exact contained_iff h
  · intro s t ht
    exact decrypt_mem h ht

/-- a table of one payload for each key: tag, key and data -/
def tableFernet (log : List Record) (kek : Bytes) : Fernet where
  isKey key := key.length == 1
  payload key nonce data := UInt8.ofNat nonce :: (key ++ data)
  openPayload key x := ((calls kek log).find? fun c => c.1 == key && (UInt8.ofNat c.2.1 :: (key ++ c.2.2)) == x).map (·.2.2)

def oneRecord : List Record := [{ plaintext := "token".toList, dek := [2], wrapNonce := 7, nonce := 9 }]

theorem authentic_oneRecord : Authentic (tableFernet oneRecord [1]) [1] oneRecord where
  keys := by decide
  fresh := by decide
  correct := by decide
  sealed k hk x m hopen := by
    obtain ⟨c, hfind, rfl⟩ := Option.map_eq_some_iff.1 hopen
    have hmem := List.mem_of_find?_eq_some hfind
    have hfound := List.find?_some hfind
    simp only [Bool.and_eq_true, beq_iff_eq] at hfound
    obtain ⟨rfl, rfl⟩ := hfound
    exact ⟨c.2.1, hmem, rfl⟩

theorem round_trip_and_containment_oneRecord :
    (∃ e, encrypt (tableFernet oneRecord [1]) (localProvider (tableFernet oneRecord [1]) [1]) [2] 7 9 "token".toList = .ok e ∧
      decrypt (tableFernet oneRecord [1]) (localProvider (tableFernet oneRecord [1]) [1]) e = .ok "token".toList) ∧
    (Contained (tableFernet oneRecord [1]) [1] oneRecord "clw1.local.AA".toList ↔
      Proper (tableFernet oneRecord [1]) [1] oneRecord "clw1.local.AA".toList) :=
  ⟨(round_trip_and_containment _).1 _ [2] 7 9 "token".toList (by decide) (by decide +kernel) (by decide) (by decide +kernel),
    ((round_trip_and_containment _).2 [1] oneRecord authentic_oneRecord).1 _⟩

/-- the envelope of a provider with another id -/
theorem not_contained_unknown : ∃ (F : Fernet) (kek : Bytes) (log : List Record) (s : Str), Authentic F kek log ∧
    (∀ r ∈ log, ¬ Seals F kek r s) ∧ decrypt F (localProvider F kek) s = .error .valueError := by
  refine ⟨tableFernet oneRecord [1], [1], oneRecord, "clw1.other.AAAA.gAAA".toList, authentic_oneRecord, ?_, by decide +kernel⟩
  intro r hr hseals
  obtain ⟨w, c, hparse, -⟩ := hseals.spells
  have hid : (parse "clw1.other.AAAA.gAAA".toList).map Prod.fst = .ok "other".toList := by decide +kernel
  rw [hparse] at hid
  have hne : kekId ≠ "other".toList := by decide
  exact hne (Except.ok.inj hid)

end Clawbolt.Encryption
