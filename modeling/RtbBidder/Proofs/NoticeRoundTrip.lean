import RtbBidder.Proofs.WinAuth
import RtbBidder.Spec.NoticeUrl

/-! What the handler reads from a `nurl` is what the service wrote into it, and the token
it carries is accepted. -/

namespace RTB

open Lib.Form

section Values

theorem isSafe_safeSet : SafeSet isSafe := by
  have hall : ∀ n < 256, isSafe (UInt8.ofNat n) →
      n < 128 ∧ Char.ofNat n ∉ '+' :: '%' :: delimiters := by decide +kernel
  intro b hb
  apply hall b.toNat b.toNat_lt
  rwa [UInt8.ofNat_toNat]

theorem percentEncode_encodes (s : String) : Encodes (percentEncode s).toList s := by
  rw [percentEncode, String.toList_ofList]
  exact encodes_percentEncode isSafe_safeSet s

/-- The special characters are neither digits nor a minus sign. -/
theorem special_not_decimal : ∀ c ∈ '+' :: '%' :: delimiters, c.isDigit = false ∧ c ≠ '-' := by
  intro c hc
  simp only [delimiters, List.mem_cons, List.not_mem_nil, or_false] at hc
  rcases hc with rfl | rfl | rfl | rfl | rfl <;> decide

theorem repr_encodes (n : ℕ) : Encodes n.repr.toList n.repr :=
  encodes_self fun c hc => Lib.notMem_repr (special_not_decimal c hc).1 n

theorem toString_u32_encodes (x : UInt32) : Encodes (toString x).toList (toString x) :=
  repr_encodes x.toNat

theorem toString_i64 (x : Int64) :
    toString x = if 0 ≤ x.toInt then x.toInt.toNat.repr else "-" ++ (-x.toInt).toNat.repr :=
  Int.repr_eq_if

theorem toString_i64_encodes (x : Int64) : Encodes (toString x).toList (toString x) := by
  rw [toString_i64]
  split_ifs
  · exact repr_encodes _
  · apply encodes_self
    intro c hc hmem
    rw [String.toList_append] at hmem
    rcases List.mem_append.1 hmem with hminus | hdigit
    · exact (special_not_decimal c hc).2 (by simpa using hminus)
    · exact Lib.notMem_repr (special_not_decimal c hc).1 _ hdigit

/-- Tokens are hex digits. -/
theorem hexEncode_encodes (bytes : Bytes) : Encodes (hexEncode bytes).toList (hexEncode bytes) := by
  have hdigit : ∀ n < 16, Lib.Hex.lower n ∉ '+' :: '%' :: delimiters := by decide
  apply encodes_self
  intro c hc hmem
  rw [hexEncode, String.toList_ofList] at hmem
  obtain ⟨b, -, hmem⟩ := List.mem_flatMap.1 hmem
  have hb := b.toNat_lt
  simp only [List.mem_cons, List.not_mem_nil, or_false] at hmem
  rcases hmem with rfl | rfl
  · exact hdigit _ (by omega) hc
  · exact hdigit _ (by omega) hc

theorem afterPlus_repr (n : ℕ) : afterPlus n.repr.toList = n.repr.toList := by
  have hplus := Lib.notMem_repr (show '+'.isDigit = false by decide) n
  unfold afterPlus
  split
  · rename_i heq
    rw [heq] at hplus
    exact absurd List.mem_cons_self hplus
  · rfl

theorem parseU32_toString (x : UInt32) : parseU32 (toString x) = some x := by
  have hx := x.toNat_lt
  change parseU32 x.toNat.repr = some x
  rw [parseU32, afterPlus_repr, parseDecimal_repr, Option.filter_some_pos (by simpa using hx),
    Option.map_some, UInt32.ofNat_toNat]

theorem parseI64_toString (x : Int64) : parseI64 (toString x) = some x := by
  have hle := x.le_toInt
  have hlt := x.toInt_lt
  rw [toString_i64]
  split_ifs with hpos
  · have hminus := Lib.notMem_repr (show '-'.isDigit = false by decide) x.toInt.toNat
    unfold parseI64
    split
    · rename_i heq
      rw [heq] at hminus
      exact absurd List.mem_cons_self hminus
    · have hfit : x.toInt.toNat < 2 ^ 63 := by omega
      rw [afterPlus_repr, parseDecimal_repr, Option.filter_some_pos (by simpa only [decide_eq_true_eq] using hfit),
        Option.map_some, Int.toNat_of_nonneg hpos, Int64.ofInt_toInt]
  · have hchars : ("-" ++ (-x.toInt).toNat.repr).toList = '-' :: (-x.toInt).toNat.repr.toList := by
      simp
    have hfit : (-x.toInt).toNat ≤ 2 ^ 63 := by omega
    rw [parseI64, hchars]
    simp only
    rw [parseDecimal_repr, Option.filter_some_pos (by simpa only [decide_eq_true_eq] using hfit), Option.map_some,
      Int.toNat_of_nonneg (by omega), neg_neg, Int64.ofInt_toInt]

end Values

section Url

variable (h : Hmac) (svc : WinNoticeGateService) (req : WinNoticeRequest)

/-- The token that the service puts into the URL. -/
def noticeToken : Option String :=
  svc.sign h (WinNoticeGateService.signingMessage req.requestId req.impId req.campaignId
    req.creativeId) req.exchangeId

/-- The parameters of the URL, with `enc` applied to the strings of the request. -/
def noticeParams (enc : String → String) : List (String × String) :=
  [("request_id", enc req.requestId), ("imp_id", enc req.impId),
   ("campaign_id", toString req.campaignId), ("creative_id", toString req.creativeId),
   ("clearing_price_micros", toString req.clearingPriceMicros), ("user_id", enc req.userId)] ++
  ((if req.exchangeId = "" then [] else [("exchange_id", enc req.exchangeId)]) ++
    ((noticeToken h svc req).map (Prod.mk "token")).toList)

/-- The query that the URL ends in. -/
def noticeQuery : List Char :=
  serialize ((noticeParams h svc req percentEncode).map fun p => (p.1.toList, p.2.toList))

theorem build_toList {base : String} (hbase : base ≠ "") :
    ∃ url, svc.build h base req = some url ∧
      url.toList = base.toList ++ '?' :: noticeQuery h svc req := by
  refine ⟨_, if_neg hbase, ?_⟩
  change (_ ++ _ ++ ((noticeToken h svc req).map ("&token=" ++ ·)).getD "").toList = _
  rw [noticeQuery, noticeParams]
  generalize noticeToken h svc req = token
  by_cases hex : req.exchangeId = "" <;> cases token <;> simp [serialize, hex]

theorem name_encodes {name : String} (hname : name ∈ winParamNames) : Encodes name.toList name := by
  have hall : (winParamNames.all fun name => name.toList.all fun c => c.isAlpha || c == '_') = true := by
    decide
  apply encodes_self
  intro c hc hmem
  have hplain := List.all_eq_true.1 (List.all_eq_true.1 hall name hname) c hmem
  simp only [delimiters, List.mem_cons, List.not_mem_nil, or_false] at hc
  rcases hc with rfl | rfl | rfl | rfl | rfl <;> cases hplain

theorem noticeParams_encodes :
    EncodePairs ((noticeParams h svc req percentEncode).map fun p => (p.1.toList, p.2.toList))
      (noticeParams h svc req id) := by
  rw [EncodePairs, List.forall₂_map_left_iff]
  unfold noticeParams
  refine List.rel_append ?_ (List.rel_append ?_ ?_)
  · refine .cons ⟨name_encodes ?_, percentEncode_encodes _⟩ <|
      .cons ⟨name_encodes ?_, percentEncode_encodes _⟩ <|
      .cons ⟨name_encodes ?_, toString_u32_encodes _⟩ <|
      .cons ⟨name_encodes ?_, toString_u32_encodes _⟩ <|
      .cons ⟨name_encodes ?_, toString_i64_encodes _⟩ <|
      .cons ⟨name_encodes ?_, percentEncode_encodes _⟩ .nil
    all_goals simp [winParamNames]
  · split_ifs
    · exact .nil
    · exact .cons ⟨name_encodes (by simp [winParamNames]), percentEncode_encodes _⟩ .nil
  · cases htoken : noticeToken h svc req with
    | none => exact .nil
    | some token =>
      obtain ⟨secret, -, htag⟩ := Option.bind_eq_some_iff.1 htoken
      obtain ⟨tag, -, rfl⟩ := Option.map_eq_some_iff.1 htag
      exact .cons ⟨name_encodes (by simp [winParamNames]), hexEncode_encodes tag⟩ .nil

variable {h svc req} {lossy : Bytes → String} {query : List Char}

/-- No parameter is written twice. -/
theorem noticeParams_nodup (enc : String → String) :
    ((noticeParams h svc req enc).map Prod.fst).Nodup := by
  unfold noticeParams
  by_cases hex : req.exchangeId = "" <;> cases noticeToken h svc req <;> simp [hex]

/-- The fields that the extractor reads from the parameters. -/
theorem winParams_of_pairs (hpairs : textPairs lossy query = noticeParams h svc req id) :
    winParams lossy query = some
      { requestId := req.requestId
        impId := req.impId
        campaignId := req.campaignId
        creativeId := req.creativeId
        clearingPriceMicros := req.clearingPriceMicros
        userId := some req.userId
        token := noticeToken h svc req
        exchangeId := if req.exchangeId = "" then none else some req.exchangeId } := by
  have honce : (winParamNames.all fun name =>
      ((noticeParams h svc req id).map Prod.fst).count name ≤ 1) = true := by
    rw [List.all_eq_true]
    intro name _
    exact decide_eq_true (List.nodup_iff_count_le_one.1 (noticeParams_nodup id) name)
  rw [winParams, hpairs]
  simp only [honce, if_true]
  unfold noticeParams
  generalize noticeToken h svc req = token
  by_cases hex : req.exchangeId = "" <;> cases token <;>
    simp [hex, List.lookup, parseU32_toString, parseI64_toString]

/-- The service accepts the token that it has signed for the message and exchange. -/
theorem verifyToken_of_sign (htotal : ∀ key msg, (h.mac key msg).isSome) (message exchangeId : String) :
    svc.verifyToken h message (svc.sign h message exchangeId) exchangeId = true := by
  rw [WinNoticeGateService.verifyToken_iff]
  cases hsecret : svc.secretFor exchangeId with
  | none => exact .inl rfl
  | some secret =>
    obtain ⟨tag, htag⟩ := Option.isSome_iff_exists.1 (htotal secret (asBytes message))
    refine .inr ⟨secret, hexEncode tag, tag, rfl, ?_, hexDecode_hexEncode tag, htag⟩
    rw [WinNoticeGateService.sign, hsecret, Option.bind_some, htag, Option.map_some]

/-- Reading the query of a `nurl` gives back the request it was built for, each parameter
once, and a token that the service accepts for it. HMAC-SHA256 takes keys of any length. -/
theorem notice_url_round_trip (htotal : ∀ key msg, (h.mac key msg).isSome)
    (lossy : Bytes → String) {base : String} (hbase : base ≠ "") (hmark : '?' ∉ base.toList)
    (hfragment : '#' ∉ base.toList) :
    ∃ url query params, svc.build h base req = some url ∧ queryOf url.toList = some query ∧
      ((textPairs lossy query).map Prod.fst).Nodup ∧ winParams lossy query = some params ∧
      params.requestId = req.requestId ∧ params.impId = req.impId ∧
      params.campaignId = req.campaignId ∧ params.creativeId = req.creativeId ∧
      params.clearingPriceMicros = req.clearingPriceMicros ∧
      params.userId = some req.userId ∧ params.exchangeId.getD "" = req.exchangeId ∧
      svc.authenticates h params = true := by
  obtain ⟨url, hbuild, hchars⟩ := build_toList h svc req hbase
  have hpairs : textPairs lossy (noticeQuery h svc req) = noticeParams h svc req id :=
    textPairs_serialize lossy (by simp [noticeParams]) (noticeParams_encodes h svc req)
  have hquery : queryOf url.toList = some (noticeQuery h svc req) := by
    rw [hchars]
    exact queryOf_append hmark hfragment (notMem_serialize (noticeParams_encodes h svc req))
  have hexchange : (if req.exchangeId = "" then none else some req.exchangeId).getD "" =
      req.exchangeId := by
    split_ifs with hex <;> simp [hex]
  refine ⟨url, _, _, hbuild, hquery, ?_, winParams_of_pairs hpairs, rfl, rfl, rfl, rfl, rfl, rfl,
    hexchange, ?_⟩
  · rw [hpairs]
    exact noticeParams_nodup id
  · rw [WinNoticeGateService.authenticates, hexchange]
    exact verifyToken_of_sign htotal _ _

/-- A notice whose strings hold the separators, an escape and a letter of two bytes. -/
def awkwardNotice : WinNoticeRequest where
  requestId := "r&imp_id=2"
  impId := "50%25+1"
  campaignId := 4294967295
  creativeId := 0
  clearingPriceMicros := -9223372036854775808
  userId := "émile?#"
  exchangeId := "adx"

def keyedService : WinNoticeGateService where
  secret := some (asBytes "default")
  secrets := fun exchangeId => if exchangeId = "adx" then some (asBytes "own") else none
  dedupTtlSecs := 3600

theorem notice_url_round_trip_awkward :
    ∃ url query params,
      keyedService.build WinNoticeGateService.sampled "https://bid.example.com/rtb/win" awkwardNotice =
        some url ∧ queryOf url.toList = some query ∧
      winParams (fun _ => "") query = some params ∧ params.requestId = "r&imp_id=2" ∧
      params.impId = "50%25+1" ∧ params.userId = some "émile?#" ∧
      keyedService.authenticates WinNoticeGateService.sampled params = true := by
  obtain ⟨url, query, params, hbuild, hquery, -, hparams, hrequest, himp, -, -, -, huser, -, hauth⟩ :=
    @notice_url_round_trip WinNoticeGateService.sampled keyedService awkwardNotice (fun _ _ => rfl)
      (fun _ => "") "https://bid.example.com/rtb/win" (by decide) (by decide) (by decide)
  exact ⟨url, query, params, hbuild, hquery, hparams, hrequest, himp, huser, hauth⟩

end Url

end RTB
