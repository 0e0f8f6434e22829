import RtbBidder.Spec.WinNotice

/-! Which notices the token check lets through, and for which notices a token
signed for one of them is good. -/

namespace RTB

/-- `v` is the non-empty secret that the configuration has for an exchange: its own one,
or else the default. -/
def WinNoticeConfig.Applies (cfg : WinNoticeConfig) (exchangeId v : String) : Prop :=
  v ≠ "" ∧ ((exchangeId ≠ "" ∧ cfg.secrets exchangeId = some v) ∨
    ((exchangeId = "" ∨ ∀ v', cfg.secrets exchangeId = some v' → v' = "") ∧ v = cfg.secret))

namespace WinNoticeGateService

variable {h : Hmac} {svc : WinNoticeGateService} {cfg : WinNoticeConfig} {m ex : String}

/-- The token check passes for want of a secret, or for a token that decodes to the tag. -/
theorem verifyToken_iff {tok : Option String} : svc.verifyToken h m tok ex = true ↔
    svc.secretFor ex = none ∨ ∃ secret t tag, svc.secretFor ex = some secret ∧ tok = some t ∧
      hexDecode t = some tag ∧ h.mac secret (asBytes m) = some tag := by
  refine ⟨?_, ?_⟩
  · intro hv
    unfold verifyToken at hv
    split at hv
    · exact .inl ‹_›
    · rename_i secret hsecret
      split at hv <;> try cases hv
      rename_i t ht
      split at hv <;> try cases hv
      rename_i presented hpresented
      split at hv <;> try cases hv
      rename_i expected hexpected
      obtain rfl := of_decide_eq_true hv
      exact .inr ⟨secret, t, expected, hsecret, (Option.filter_eq_some_iff.1 ht).1, hpresented,
        hexpected⟩
  · rintro (hnone | ⟨secret, t, tag, hsecret, rfl, ht, htag⟩)
    · simp only [verifyToken, hnone]
    · -- the empty token would decode to an empty tag
      have hne : t ≠ "" := by
        rintro rfl
        obtain rfl : [] = tag := by simpa [hexDecode, hexDecodeChars] using ht
        simpa using h.mac_length htag
      have hfilter : (some t).filter (fun t => decide (t ≠ "")) = some t :=
        Option.filter_eq_some_iff.2 ⟨rfl, by simpa using hne⟩
      simp only [verifyToken, hsecret, hfilter, ht, htag, decide_true]

/-- The default secret, where it counts. -/
theorem new_secret (hauth : cfg.requireAuth = true) {secret : Bytes} :
    (new cfg).secret = some secret ↔ cfg.secret ≠ "" ∧ secret = asBytes cfg.secret := by
  simp only [new, hauth, true_and]
  split_ifs with hs
  · simp [hs, eq_comm]
  · simp [hs]

/-- The secret of an exchange of its own. -/
theorem new_secrets {secret : Bytes} : (new cfg).secrets ex = some secret ↔
    ∃ v, cfg.secrets ex = some v ∧ v ≠ "" ∧ secret = asBytes v := by
  simp only [new, Option.map_eq_some_iff, Option.filter_eq_some_iff, decide_eq_true_eq]
  refine ⟨?_, ?_⟩
  · rintro ⟨v, ⟨hv, hne⟩, rfl⟩
    exact ⟨v, hv, hne, rfl⟩
  · rintro ⟨v, hv, hne, rfl⟩
    exact ⟨v, ⟨hv, hne⟩, rfl⟩

theorem secretFor_new (hauth : cfg.requireAuth = true) {secret : Bytes} :
    (new cfg).secretFor ex = some secret ↔ ∃ v, cfg.Applies ex v ∧ secret = asBytes v := by
  by_cases hex : ex = ""
  · simp only [secretFor, hex, ne_eq, not_true_eq_false, if_false, new_secret hauth,
      WinNoticeConfig.Applies, false_and, true_or, true_and, false_or]
    refine ⟨?_, ?_⟩
    · rintro ⟨hne, rfl⟩
      exact ⟨cfg.secret, ⟨hne, rfl⟩, rfl⟩
    · rintro ⟨v, ⟨hne, rfl⟩, rfl⟩
      exact ⟨hne, rfl⟩
  · simp only [secretFor, hex, ne_eq, not_false_eq_true, if_true, Option.or_eq_some_iff, new_secrets,
      new_secret hauth, WinNoticeConfig.Applies, true_and, false_or]
    refine ⟨?_, ?_⟩
    · rintro (⟨v, hv, hne, rfl⟩ | ⟨hnone, hne, rfl⟩)
      · exact ⟨v, ⟨hne, .inl hv⟩, rfl⟩
      · refine ⟨cfg.secret, ⟨hne, .inr ⟨fun v' hv' => ?_, rfl⟩⟩, rfl⟩
        by_contra hv'ne
        have hsome : (new cfg).secrets ex = some (asBytes v') := new_secrets.2 ⟨v', hv', hv'ne, rfl⟩
        rw [hnone] at hsome
        cases hsome
    · rintro ⟨v, ⟨hne, hv | ⟨hempty, rfl⟩⟩, rfl⟩
      · exact .inl ⟨v, hv, hne, rfl⟩
      · refine .inr ⟨?_, hne, rfl⟩
        rw [Option.eq_none_iff_forall_ne_some]
        intro secret hsecret
        obtain ⟨v, hv, hvne, -⟩ := new_secrets.1 hsecret
        exact hvne (hempty v hv)

theorem gate_ne_authFailed {n : WinParams} (reply : SetReply) :
    svc.gate h n reply ≠ .AuthFailed ↔ svc.authenticates h n = true := by
  unfold gate
  split_ifs with hauth
  · refine iff_of_true ?_ hauth
    cases reply <;> simp [gateOf]
  · exact iff_of_false (fun hne => hne rfl) hauth

/-- With authentication required, a notice passes exactly if the configuration has no
secret for its exchange, or its token decodes to the tag of its message under the
secret it has. -/
theorem gate_passes_iff (h : Hmac) (hauth : cfg.requireAuth = true) (n : WinParams)
    (reply : SetReply) :
    (new cfg).gate h n reply ≠ .AuthFailed ↔
      (¬ ∃ v, cfg.Applies (n.exchangeId.getD "") v) ∨
      ∃ v t tag, cfg.Applies (n.exchangeId.getD "") v ∧ n.token = some t ∧
        hexDecode t = some tag ∧ h.mac (asBytes v) (asBytes (messageOf n)) = some tag := by
  rw [gate_ne_authFailed, authenticates, verifyToken_iff]
  apply or_congr
  · rw [Option.eq_none_iff_forall_ne_some]
    refine ⟨?_, ?_⟩
    · rintro hnone ⟨v, hv⟩
      exact hnone _ ((secretFor_new hauth).2 ⟨v, hv, rfl⟩)
    · intro hnone secret hsecret
      obtain ⟨v, hv, -⟩ := (secretFor_new hauth).1 hsecret
      exact hnone ⟨v, hv⟩
  · refine ⟨?_, ?_⟩
    · rintro ⟨secret, t, tag, hsecret, ht, htag, hmac⟩
      obtain ⟨v, hv, rfl⟩ := (secretFor_new hauth).1 hsecret
      exact ⟨v, t, tag, hv, ht, htag, hmac⟩
    · rintro ⟨v, t, tag, hv, ht, htag, hmac⟩
      exact ⟨asBytes v, t, tag, (secretFor_new hauth).2 ⟨v, hv, rfl⟩, ht, htag, hmac⟩

/-- HMAC-SHA256 tags of four messages under the secret `k`. -/
def tagsUnderK : List (String × String) :=
  [("r|1|7|8", "ae7e6f312584462f659b0948aa4ce91d949c3cff3b0c5a338ea4620650af587b"),
   ("r1|1|7|8", "2fab1db6cfb0121c2def76b92b63f79776f60eeae9afdf7c47b2b881af1370ae"),
   ("r2|1|7|8", "ba1802b3f28511d259b2d0f1b73be610dbcd7c50f8de50fc0b64185191b49ac2"),
   ("a|b|c|7|8", "543769c25bd619ebf9ab7e25168a440e41bfd3c77d62abddce4c67cbef139cc6")]

/-- HMAC-SHA256 where the tag is listed, and zeros elsewhere. -/
def sampled : Hmac where
  mac := fun key msg =>
    let listed := (tagsUnderK.find? fun e => key = asBytes "k" ∧ asBytes e.1 = msg).bind
      fun e => hexDecode e.2
    some ((listed.filter fun tag => tag.length = 32).getD (List.replicate 32 0))
  mac_length := by
    intro key msg tag ht
    obtain rfl := Option.some.inj ht
    generalize ((tagsUnderK.find? _).bind _) = listed
    cases hf : listed.filter fun tag => decide (tag.length = 32) with
    | none => rfl
    | some tag => simpa using (Option.filter_eq_some_iff.1 hf).2

/-- A notice for an exchange with a secret of its own, with its token. -/
theorem gate_passes_with_exchange_secret :
    ∃ (cfg : WinNoticeConfig) (n : WinParams), cfg.requireAuth = true ∧ cfg.Applies "adx" "k" ∧
      n.exchangeId = some "adx" ∧ (new cfg).gate sampled n .ok ≠ .AuthFailed := by
  let cfg : WinNoticeConfig := ⟨true, "", fun ex => if ex = "adx" then some "k" else none, 3600⟩
  let token := "ae7e6f312584462f659b0948aa4ce91d949c3cff3b0c5a338ea4620650af587b"
  let n : WinParams := ⟨"r", "1", 7, 8, 0, none, some token, some "adx"⟩
  have happ : cfg.Applies "adx" "k" := ⟨by decide, .inl ⟨by decide, rfl⟩⟩
  have htag : (hexDecode token).isSome ∧
      sampled.mac (asBytes "k") (asBytes (messageOf n)) = hexDecode token := by decide +kernel
  obtain ⟨tag, ht⟩ := Option.isSome_iff_exists.1 htag.1
  exact ⟨cfg, n, rfl, happ, rfl, (gate_passes_iff sampled rfl n .ok).2
    (.inr ⟨"k", token, tag, happ, rfl, ht, htag.2.trans ht⟩)⟩

/-- With only a secret for one exchange configured, a notice that names another exchange
is accepted without a token. -/
theorem unknown_exchange_bypasses_auth :
    ∃ (cfg : WinNoticeConfig) (n : WinParams), cfg.requireAuth = true ∧
      (∃ ex v, cfg.secrets ex = some v ∧ v ≠ "") ∧ n.token = none ∧
      ∀ h : Hmac, (new cfg).gate h n .ok = .Accept := by
  refine ⟨⟨true, "", fun ex => if ex = "adx" then some "k" else none, 3600⟩,
    ⟨"r", "1", 7, 8, 0, none, none, some "other"⟩, rfl, ⟨"adx", "k", rfl, by decide⟩, rfl, ?_⟩
  intro h
  rfl

theorem toList_signingMessage (r i : String) (c cr : UInt32) :
    (signingMessage r i c cr).toList =
      ((r.toList ++ '|' :: i.toList) ++ '|' :: (toString c).toList) ++ '|' :: (toString cr).toList := by
  simp [signingMessage, String.toList_append]

/-- Two notices have one signing message exactly if they agree, or agree in the numbers
while a bar inside one's ids is the joint of the other's. -/
theorem signingMessage_eq_iff {r i r' i' : String} {c cr c' cr' : UInt32} :
    signingMessage r i c cr = signingMessage r' i' c' cr' ↔
      c = c' ∧ cr = cr' ∧ ((r = r' ∧ i = i') ∨ Lib.Shifted '|' r.toList i.toList r'.toList i'.toList) := by
  have hnum : ∀ n : UInt32, '|' ∉ (toString n).toList := fun n => Lib.notMem_repr (by decide) n.toNat
  have hinj : ∀ {a b : UInt32}, (toString a).toList = (toString b).toList → a = b := fun hab =>
    UInt32.toNat_inj.1 (Nat.repr_injective (String.toList_inj.1 hab))
  rw [← String.toList_inj, toList_signingMessage, toList_signingMessage]
  refine ⟨?_, ?_⟩
  · intro heq
    obtain ⟨heq, hcr⟩ := Lib.join_inj_of_notMem (hnum _) (hnum _) heq
    obtain ⟨heq, hc⟩ := Lib.join_inj_of_notMem (hnum _) (hnum _) heq
    refine ⟨hinj hc, hinj hcr, ?_⟩
    rwa [Lib.join_eq_iff, String.toList_inj, String.toList_inj] at heq
  · rintro ⟨rfl, rfl, hids⟩
    rw [← String.toList_inj, ← String.toList_inj, ← Lib.join_eq_iff] at hids
    rw [hids]

theorem verifyToken_sign {token m' : String} (hsign : svc.sign h m ex = some token)
    (hinj : ∀ secret tag, svc.secretFor ex = some secret → h.mac secret (asBytes m) = some tag →
      h.mac secret (asBytes m') = some tag → m = m') :
    svc.verifyToken h m' (some token) ex = true ↔ m = m' := by
  obtain ⟨secret, hsecret, hmac⟩ := Option.bind_eq_some_iff.1 hsign
  obtain ⟨tag, htag, rfl⟩ := Option.map_eq_some_iff.1 hmac
  rw [verifyToken_iff, hsecret]
  refine ⟨?_, ?_⟩
  · rintro (hnone | ⟨secret', t, tag', hs', ht, hdec, hmac'⟩)
    · cases hnone
    · obtain rfl := Option.some.inj hs'
      obtain rfl := Option.some.inj ht
      obtain rfl := Option.some.inj ((hexDecode_hexEncode tag).symm.trans hdec)
      exact hinj secret tag hsecret htag hmac'
  · rintro rfl
    exact .inr ⟨secret, _, tag, rfl, rfl, hexDecode_hexEncode tag, htag⟩

/-- A token signed for one notice is good for that notice only, unless the other notice
has the same numbers and its ids split the same text at another bar. The tags of the two
messages are taken not to collide. -/
theorem token_binds_notice_iff {token r i r' i' : String} {c cr c' cr' : UInt32}
    (hsign : svc.sign h (signingMessage r i c cr) ex = some token)
    (hinj : ∀ secret tag, svc.secretFor ex = some secret →
      h.mac secret (asBytes (signingMessage r i c cr)) = some tag →
      h.mac secret (asBytes (signingMessage r' i' c' cr')) = some tag →
      signingMessage r i c cr = signingMessage r' i' c' cr') :
    (svc.verifyToken h (signingMessage r' i' c' cr') (some token) ex = true →
        r = r' ∧ i = i' ∧ c = c' ∧ cr = cr') ↔
      ¬ (c = c' ∧ cr = cr' ∧ Lib.Shifted '|' r.toList i.toList r'.toList i'.toList) := by
  rw [verifyToken_sign hsign hinj, signingMessage_eq_iff]
  refine ⟨?_, ?_⟩
  · rintro hbinds ⟨hc, hcr, hshift⟩
    obtain ⟨rfl, -⟩ := hbinds ⟨hc, hcr, .inr hshift⟩
    exact hshift.ne rfl
  · rintro hno ⟨hc, hcr, ⟨hr, hi⟩ | hshift⟩
    · exact ⟨hr, hi, hc, hcr⟩
    · exact absurd ⟨hc, hcr, hshift⟩ hno

/-- A service with the default secret `k`. -/
def keyed : WinNoticeGateService := new ⟨true, "k", fun _ => none, 3600⟩

theorem token_binds_plain_ids :
    ∃ token, keyed.sign sampled (signingMessage "r1" "1" 7 8) "" = some token ∧
      (keyed.verifyToken sampled (signingMessage "r2" "1" 7 8) (some token) "" = true →
        "r1" = "r2" ∧ "1" = "1" ∧ (7 : UInt32) = 7 ∧ (8 : UInt32) = 8) := by
  have hsign : keyed.sign sampled (signingMessage "r1" "1" 7 8) "" =
      some "2fab1db6cfb0121c2def76b92b63f79776f60eeae9afdf7c47b2b881af1370ae" := by decide +kernel
  refine ⟨_, hsign, (token_binds_notice_iff hsign ?_).2 ?_⟩
  · have hne : sampled.mac (asBytes "k") (asBytes (signingMessage "r1" "1" 7 8)) ≠
        sampled.mac (asBytes "k") (asBytes (signingMessage "r2" "1" 7 8)) := by decide +kernel
    intro secret tag hsecret h1 h2
    obtain rfl : asBytes "k" = secret := Option.some.inj hsecret
    exact absurd (h1.trans h2.symm) hne
  · rintro ⟨-, -, w, ⟨h1, -⟩ | ⟨h1, -⟩⟩ <;> simpa using congrArg List.length h1

/-- The token for request `a|b` and impression `c` is good for request `a` and
impression `b|c`. -/
theorem bar_in_ids_moves_token :
    keyed.sign sampled (signingMessage "a|b" "c" 7 8) "" =
        some "543769c25bd619ebf9ab7e25168a440e41bfd3c77d62abddce4c67cbef139cc6" ∧
      keyed.verifyToken sampled (signingMessage "a" "b|c" 7 8)
        (some "543769c25bd619ebf9ab7e25168a440e41bfd3c77d62abddce4c67cbef139cc6") "" = true := by
  decide +kernel

end WinNoticeGateService

end RTB
