import Tlscap.Connection.Uncached
import Tlscap.Tls.Recording

/-!
# What the key caches change

The caches are keyed by generation and algorithm, not by the secret the keys
came from.  When the keylog binds the connection to another secret later, the
keys of the earlier one stay.  This module runs `ConnectionState` and `Uncached`
on the same calls.

* **No stale keys.**  A call whose caches hold nothing but what its keylog gives sees
  what it would see without caches (`call_agrees`), and so does every call of a sequence
  in which none finds stale keys (`caching_transparent`).  A keylog that never binds a
  label to two secrets leaves no other keys (`meetsNoStaleKeys_of_bindsOnly`).
* **Stale keys.**  An entry that is first read in the middle of being written makes the
  two differ, for one complete record (`half_written_secret_stays_cached`).
-/

namespace Tlscap

/-- A call on the decrypt state of a connection. -/
inductive DecryptCall
  | setServerRandom (serverRandom : Bytes)
  | decrypt (keylog : Keylog) (isClientToServer : Bool) (contentType : UInt8) (body : Bytes)

/-- What a caller sees of a call: the result, and the counters it leaves. -/
structure DecryptObservation where
  result : Option (Except ProcessError DecryptedRecord)
  seq : Bool → Generation → UInt64
  tls12Seq : Bool → UInt64

namespace DecryptObservation

/-- The observation of a result and the state it leaves. -/
def of (state : Uncached) (result : Option (Except ProcessError DecryptedRecord)) :
    DecryptObservation :=
  ⟨result, state.seq, state.tls12Seq⟩

end DecryptObservation

/-- One call. -/
def ConnectionState.call (crypto : Crypto) (state : ConnectionState) :
    DecryptCall → ConnectionState × DecryptObservation
  | .setServerRandom serverRandom =>
      let after := (state.setServerRandom serverRandom).1
      (after, .of after.uncached none)
  | .decrypt keylog isClientToServer contentType body =>
      let after := state.decrypt crypto keylog isClientToServer contentType body
      (after.1, .of after.1.uncached (some after.2))

/-- One call of the version that caches nothing. -/
def Uncached.call (crypto : Crypto) (state : Uncached) :
    DecryptCall → Uncached × DecryptObservation
  | .setServerRandom serverRandom =>
      let after := (state.setServerRandom serverRandom).1
      (after, .of after none)
  | .decrypt keylog isClientToServer contentType body =>
      let after := state.decrypt crypto keylog isClientToServer contentType body
      (after.1, .of after.1 (some after.2))

/-- The call finds no stale keys in the caches of its direction. -/
def ConnectionState.MeetsNoStaleKeys (crypto : Crypto) (state : ConnectionState) :
    DecryptCall → Prop
  | .setServerRandom _ => True
  | .decrypt keylog isClientToServer _ _ => state.CachesAgree crypto keylog isClientToServer

namespace ConnectionState

theorem uncached_setServerRandom (state : ConnectionState) (serverRandom : Bytes) :
    state.uncached.setServerRandom serverRandom =
      ((state.setServerRandom serverRandom).1.uncached,
        (state.setServerRandom serverRandom).2) := by
  obtain ⟨clientRandom, known, c, s, c', s'⟩ := state
  cases known <;> rfl

/-! ## Calls that find no stale keys -/

/-- One call without stale keys. -/
theorem call_agrees (crypto : Crypto) (state : ConnectionState) (decryptCall : DecryptCall)
    (hfresh : state.MeetsNoStaleKeys crypto decryptCall) :
    state.uncached.call crypto decryptCall =
      ((state.call crypto decryptCall).1.uncached, (state.call crypto decryptCall).2) := by
  cases decryptCall with
  | setServerRandom serverRandom =>
      simp only [call, Uncached.call, uncached_setServerRandom]
  | decrypt keylog isClientToServer contentType body =>
      simp only [call, Uncached.call, decrypt_agrees hfresh]

/-- **Caching is transparent where no keys are stale.**  In every sequence of calls
none of which finds keys in the caches that its keylog would not give, every
result and every counter is that of the version that caches nothing. -/
theorem caching_transparent (crypto : Crypto) (state : ConnectionState)
    (calls : List DecryptCall)
    (hfresh : Machine.Throughout (call crypto) (MeetsNoStaleKeys crypto) state calls) :
    (Machine.run (Uncached.call crypto) state.uncached calls).2 =
      (Machine.run (call crypto) state calls).2 := by
  rw [Machine.run_refines (call_agrees crypto) hfresh]

/-- Whatever the keylogs of the calls have of a connection, if they never bind a
label to two secrets then no keys are ever stale. -/
theorem meetsNoStaleKeys_of_bindsOnly (crypto : Crypto) (clientRandom : Bytes)
    (secrets : Secrets) {calls : List DecryptCall}
    (hbinds : ∀ keylog isClientToServer contentType body,
      DecryptCall.decrypt keylog isClientToServer contentType body ∈ calls →
        keylog.BindsOnly clientRandom secrets) :
    Machine.Throughout (call crypto) (MeetsNoStaleKeys crypto) (new clientRandom) calls := by
  apply Machine.throughout_of_invariant
    (P := fun state => state.clientRandom = clientRandom ∧ state.CachesFrom crypto secrets)
    (Q := fun decryptCall => decryptCall ∈ calls)
  · rintro state decryptCall ⟨rfl, hcaches⟩ hcall
    cases decryptCall with
    | setServerRandom serverRandom =>
        refine ⟨trivial, ?_, hcaches.setServerRandom serverRandom⟩
        simp only [call, ConnectionState.setServerRandom]
        cases state.serverRandom <;> rfl
    | decrypt keylog isClientToServer contentType body =>
        have hkeylog := hbinds keylog isClientToServer contentType body hcall
        exact ⟨hcaches.agree hkeylog isClientToServer, clientRandom_decrypt _ _ _ _ _,
          hcaches.decrypt hkeylog isClientToServer contentType body⟩
  · exact ⟨rfl, cachesFrom_new crypto clientRandom secrets⟩
  · exact fun _ hcall => hcall

end ConnectionState

/-! ## A secret read while it was being written

A TLS 1.2 server sends a NewSessionTicket in the clear and then its encrypted
Finished.  The keylog is read when half of the master secret has been written,
then again when the line is complete. -/

namespace HalfWrittenSecret

/-- The client random of the session. -/
def clientRandom : Bytes := List.replicate 32 0xaa

/-- The server random of the session. -/
def serverRandom : Bytes := List.replicate 32 0xbb

/-- The keylog when `length` bytes of the master secret have been written. -/
def keylog (length : ℕ) : Keylog :=
  Keylog.parse Recording.hexDecode ("CLIENT_RANDOM ".toList ++ List.replicate 64 'a' ++ [' '] ++
    List.replicate (2 * length) 'c')

/-- The NewSessionTicket. -/
def newSessionTicket : Bytes := [0x04, 0x00, 0x00, 0x14, 0x00, 0x00, 0x1c, 0x20, 0x00, 0x0e] ++
  List.replicate 14 0x5a

/-- The content of the Finished message. -/
def finished : Bytes := [0x14, 0x00, 0x00, 0x0c, 1, 2, 3, 4, 5, 6, 7, 8, 9, 10, 11, 12]

/-- The Finished message under the server's key, after its explicit nonce. -/
def ciphertext : Bytes :=
  beBytes 32 0xf9a796ffd8c5d16b31a1d1c01f6f47ca52030643b4586508d75e3f90b5eea21b

/-- The input of the key expansion. -/
def seed : Bytes := Tls12.keyExpansionLabel ++ serverRandom ++ clientRandom

/-- The key expansions under half of the secret and under all of it, and the one
ciphertext that opens. -/
def recording : Recording where
  hmac :=
    Recording.pHashRounds .sha256 (List.replicate 24 0xcc) seed
      (beBytes 32 0x1721b289dfc077cb2160631af963f57d5e325123fac8cadcf443dc7878087def)
      (beBytes 32 0x9efdd6b2bd2854de7aa31e2caa38a3053b8ac44e1a4e16cbbef8b1327e3410a2)
      (beBytes 32 0x161464156000961bcf11ea4762cdb5b8387796a0c7638c2ad4e4bf2fbad79b5d)
      (beBytes 32 0x465ea7298026122d67be6e60b015f034f450df89996cc1934dbef8ca0d131adb) ++
    Recording.pHashRounds .sha384 (List.replicate 24 0xcc) seed
      (beBytes 48 0x654a16bf6dc5ee0dad3f819ed47bd9b546bcee5f94f23e74ad34ab2937c27c75d2a0d63a0a0ff4f8cfa675f2c8340d1f)
      (beBytes 48 0x94c7d1bbf809305193e2284d075c78dedeb97153b29aadafd8212d944eb2b85f541ef6555044f814cda0f1a49aa28b43)
      (beBytes 48 0xaaca47765b274ee8d87813c02c9a1d2c443c42ba57c086d8aae6665ebe119e50a6f299b0d2d1d7c3e2585203fa21ca1c)
      (beBytes 48 0x9a1fcc32e865f87db12975e2ee6a222393afa18c95655cab2c4eeaa3e04ef9873d791c42f211dc49610c57e9d4445bcc) ++
    Recording.pHashRounds .sha256 (List.replicate 48 0xcc) seed
      (beBytes 32 0x33f32afdd9755a95893779c2759f8c115a41afcd917d000b183697a6e0b1d6ad)
      (beBytes 32 0x125c596a074a7ba9aa43a2bba032a337b36ba7d30982503952272e1200d843b6)
      (beBytes 32 0x169e62e36fa264c9c9676dd2f953c3c1487f60174e5aa0cd3f8215134c24c65e)
      (beBytes 32 0xaf5132fd57e4517e8bf49d219b291aa43d335592b7571448f3be7a8af920a60a)
  sealed :=
    [(ciphertext,
      { algorithm := .aes128Gcm
        key := beBytes 16 0xb36ba7d30982503952272e1200d843b6
        nonce := beBytes 4 0x57e4517e ++ List.replicate 8 0
        aad := Tls12.RecordKeys.aad 0 0x16 16
        plaintext := finished })]

/-- The ServerHello is seen, then both records, the keylog completed in between. -/
def calls : List DecryptCall :=
  [.setServerRandom serverRandom,
    .decrypt (keylog 24) false 0x16 newSessionTicket,
    .decrypt (keylog 48) false 0x16 (List.replicate 8 0 ++ ciphertext)]

/-- The same calls with the complete keylog throughout. -/
def completeCalls : List DecryptCall :=
  [.setServerRandom serverRandom,
    .decrypt (keylog 48) false 0x16 newSessionTicket,
    .decrypt (keylog 48) false 0x16 (List.replicate 8 0 ++ ciphertext)]

/-- The complete keylog has the master secret and nothing else. -/
theorem secretFor_keylog (label : SecretLabel) :
    (keylog 48).secretFor clientRandom label =
      if label = .clientRandom then some (List.replicate 48 0xcc) else none := by
  have hentries : (keylog 48).byClientRandom.entries =
      [⟨(clientRandom, .clientRandom), List.replicate 48 0xcc⟩] := by decide +kernel
  unfold Keylog.secretFor AList.lookup
  rw [hentries]
  by_cases hlabel : label = .clientRandom
  · subst hlabel
    simp
  · rw [if_neg hlabel, List.dlookup_cons_ne _ _ (by simpa using hlabel)]
    rfl

end HalfWrittenSecret

namespace ConnectionState

open HalfWrittenSecret

/-- With the complete keylog throughout, the Finished message is decrypted either
way. -/
theorem caching_transparent_complete :
    (Machine.run (Uncached.call recording.crypto) (new HalfWrittenSecret.clientRandom).uncached
        completeCalls).2 =
      (Machine.run (call recording.crypto) (new HalfWrittenSecret.clientRandom)
        completeCalls).2 := by
  apply caching_transparent
  apply meetsNoStaleKeys_of_bindsOnly recording.crypto HalfWrittenSecret.clientRandom
    fun label => if label = .clientRandom then some (List.replicate 48 0xcc) else none
  intro used isClientToServer contentType body hcall label secret hsecret
  have hused : used = keylog 48 := by
    simp only [completeCalls, List.mem_cons, List.not_mem_nil, or_false, reduceCtorEq, false_or,
      DecryptCall.decrypt.injEq] at hcall
    rcases hcall with hcall | hcall <;> exact hcall.1
  rw [hused, secretFor_keylog] at hsecret
  exact hsecret

/-- The keys of the half-written secret stay: the Finished message is lost, though
the keylog passed for it is complete. -/
theorem half_written_secret_stays_cached :
    ¬ ∀ (crypto : Crypto) (clientRandom : Bytes) (calls : List DecryptCall),
      (Machine.run (Uncached.call crypto) (new clientRandom).uncached calls).2 =
        (Machine.run (call crypto) (new clientRandom) calls).2 := by
  intro htransparent
  have hresults := congrArg (List.map DecryptObservation.result)
    (htransparent recording.crypto HalfWrittenSecret.clientRandom calls)
  have hcached : (Machine.run (call recording.crypto) (new HalfWrittenSecret.clientRandom)
      calls).2.map DecryptObservation.result =
        [none, some (.error .noKey), some (.error .noKey)] := by
    decide +kernel
  have huncached : (Machine.run (Uncached.call recording.crypto)
      (new HalfWrittenSecret.clientRandom).uncached calls).2.map DecryptObservation.result =
        [none, some (.error .noKey),
          some (.ok ⟨finished, 0x16, .aes128Gcm, .tls12 (List.replicate 8 0)⟩)] := by
    decide +kernel
  rw [hcached, huncached] at hresults
  revert hresults
  decide

end ConnectionState

end Tlscap
