import RunNginx.Lib.Decimal
import RunNginx.Stats.Percentiles

/-!
# The metrics page

The page prints the counters, and the histogram of the latencies as cumulative counts up to
an upper bound.

`truthful_iff`: each bucket of the page counts the requests that took at most as long as its
bound exactly if no request took a time between two bounds.  A class is printed under its
lower end, so that the requests inside it are counted below their duration.
-/

namespace RunNginx
namespace Metrics

open ByteString Decimal Ranks

/-- A line of the page. -/
inductive Line
  | comment (text : Bytes)
  | sample (name value : Bytes)
deriving DecidableEq

def Line.text : Line → Bytes
  | .comment text => text
  | .sample name value => name ++ [32] ++ value

/-- The name that a line gives a value to. -/
def Line.name? : Line → Option Bytes
  | .comment _ => none
  | .sample name _ => some name

/-- `{:.6}` of a number of microseconds, in seconds -/
def secondsText (us : Nat) : Bytes :=
  render (us / 10 ^ 6) ++
    46 :: [5, 4, 3, 2, 1, 0].map fun k => UInt8.ofNat (48 + us % 10 ^ 6 / 10 ^ k % 10)

def bucketStart : Bytes :=
  ascii "runnginx_request_duration_seconds_bucket\x7ble=\""

def bucketEnd : Bytes :=
  ascii "\"\x7d"

/-- The name of the bucket with this upper bound. -/
def bucketName (us : Nat) : Bytes :=
  bucketStart ++ (secondsText us ++ bucketEnd)

/-- The name of the bucket without a bound. -/
def infName : Bytes :=
  bucketStart ++ (ascii "+Inf" ++ bucketEnd)

def countName : Bytes :=
  ascii "runnginx_request_duration_seconds_count"

def statusName (digit : Bytes) : Bytes :=
  ascii "runnginx_status_total\x7bclass=\"" ++ digit ++ ascii "xx\"\x7d"

/-- The counters. -/
def counterLines (uptime : Nat) (s : Stats) : List Line :=
  [.comment (ascii "# HELP runnginx_requests_total Total HTTP requests"),
    .comment (ascii "# TYPE runnginx_requests_total counter"),
    .sample (ascii "runnginx_requests_total") (render s.requestsTotal),
    .comment (ascii "# HELP runnginx_active_connections Active connections"),
    .comment (ascii "# TYPE runnginx_active_connections gauge"),
    .sample (ascii "runnginx_active_connections") (render s.active),
    .comment (ascii "# HELP runnginx_bytes_sent_total Bytes sent"),
    .comment (ascii "# TYPE runnginx_bytes_sent_total counter"),
    .sample (ascii "runnginx_bytes_sent_total") (render s.bytesSent),
    .comment (ascii "# HELP runnginx_bytes_received_total Bytes received"),
    .comment (ascii "# TYPE runnginx_bytes_received_total counter"),
    .sample (ascii "runnginx_bytes_received_total") (render s.bytesReceived),
    .comment (ascii "# HELP runnginx_status_total Requests by HTTP status class"),
    .comment (ascii "# TYPE runnginx_status_total counter"),
    .sample (statusName (ascii "2")) (render s.status2xx),
    .sample (statusName (ascii "3")) (render s.status3xx),
    .sample (statusName (ascii "4")) (render s.status4xx),
    .sample (statusName (ascii "5")) (render s.status5xx),
    .comment (ascii "# HELP runnginx_uptime_seconds Process uptime"),
    .comment (ascii "# TYPE runnginx_uptime_seconds gauge"),
    .sample (ascii "runnginx_uptime_seconds") (render uptime),
    .comment (ascii "# HELP runnginx_request_duration_seconds Request latency"),
    .comment (ascii "# TYPE runnginx_request_duration_seconds histogram")]

/-- The buckets of the histogram; the counts add up. -/
def bucketLines : Nat → Nat → List Nat → List Line
  | _, _, [] => []
  | i, cumulative, count :: counts =>
      .sample (bucketName (if i = 0 then 1 else 2 ^ i)) (render (cumulative + count)) ::
        bucketLines (i + 1) (cumulative + count) counts

/-- What stands behind the buckets; `sumText` is the floating-point product of two numbers. -/
def summaryLines (sumText : Nat → Nat → Bytes) (s : Stats) : List Line :=
  let (p50, p90, p99, _) := s.latencyPercentiles
  [.sample infName (render s.requestsTotal),
    .sample (ascii "runnginx_request_duration_seconds_sum") (sumText p90 s.requestsTotal),
    .sample countName (render s.requestsTotal),
    .comment (ascii "# HELP runnginx_p50_seconds p50 latency"),
    .comment (ascii "# TYPE runnginx_p50_seconds gauge"),
    .sample (ascii "runnginx_p50_seconds") (secondsText p50),
    .comment (ascii "# HELP runnginx_p99_seconds p99 latency"),
    .comment (ascii "# TYPE runnginx_p99_seconds gauge"),
    .sample (ascii "runnginx_p99_seconds") (secondsText p99)]

/-- The lines of the page. -/
def pageLines (uptime : Nat) (sumText : Nat → Nat → Bytes) (s : Stats) : List Line :=
  counterLines uptime s ++ (bucketLines 0 0 s.latencyBuckets ++ summaryLines sumText s)

def prometheusMetrics (uptime : Nat) (sumText : Nat → Nat → Bytes) (s : Stats) : Bytes :=
  let body := (pageLines uptime sumText s).flatMap fun line => line.text ++ [10]
  ascii "HTTP/1.1 200 OK\r\nContent-Type: text/plain; version=0.0.4; charset=utf-8\r\n" ++
    ascii "Content-Length: " ++ render body.length ++
      ascii "\r\nConnection: keep-alive\r\n\r\n" ++ body

section Names

/-- A digit is read off its byte. -/
theorem digit_inj
    {a b : Nat} (ha : a < 10) (hb : b < 10) (h : UInt8.ofNat (48 + a) = UInt8.ofNat (48 + b)) :
    a = b := by
  have := congrArg UInt8.toNat h
  simp only [UInt8.toNat_ofNat'] at this
  omega

/-- Different times are printed differently. -/
theorem secondsText_inj
    {us us' : Nat} (h : secondsText us = secondsText us') :
    us = us' := by
  obtain ⟨hsecs, hdigits⟩ := List.append_inj' h rfl
  have hdiv : us / 10 ^ 6 = us' / 10 ^ 6 := render_inj hsecs
  have hdigit : ∀ k ∈ [5, 4, 3, 2, 1, 0],
      us % 10 ^ 6 / 10 ^ k % 10 = us' % 10 ^ 6 / 10 ^ k % 10 := by
    have hmap := List.map_inj_left.mp (List.cons.inj hdigits).2
    exact fun k hk => digit_inj (Nat.mod_lt _ (by decide)) (Nat.mod_lt _ (by decide)) (hmap k hk)
  simp only [List.forall_mem_cons] at hdigit
  omega

theorem bucketName_inj
    {us us' : Nat} (h : bucketName us = bucketName us') :
    us = us' :=
  secondsText_inj (List.append_cancel_right (List.append_cancel_left h))

/-- The bucket without a bound has a name of its own. -/
theorem bucketName_ne_infName
    (us : Nat) :
    bucketName us ≠ infName := by
  intro h
  have hplus := List.append_cancel_left h
  obtain ⟨b, s, hb⟩ := List.exists_cons_of_ne_nil (render_ne_nil (us / 10 ^ 6))
  rw [secondsText, hb] at hplus
  have hdigit : isDigit b = true := isDigit_of_mem_render (hb ▸ List.mem_cons_self)
  rw [(List.cons.inj hplus).1] at hdigit
  exact absurd hdigit (by decide)

/-- The names of the lines that are no buckets. -/
def otherNames : List Bytes :=
  [ascii "runnginx_requests_total", ascii "runnginx_active_connections",
    ascii "runnginx_bytes_sent_total", ascii "runnginx_bytes_received_total",
    statusName (ascii "2"), statusName (ascii "3"), statusName (ascii "4"),
    statusName (ascii "5"), ascii "runnginx_uptime_seconds",
    ascii "runnginx_request_duration_seconds_sum", countName, ascii "runnginx_p50_seconds",
    ascii "runnginx_p99_seconds"]

theorem bucketName_not_mem
    (us : Nat) :
    bucketName us ∉ otherNames := by
  have hstart : otherNames.all (fun name => !bucketStart.isPrefixOf name) = true := rfl
  intro h
  have hother := List.all_eq_true.mp hstart _ h
  rw [Bool.not_eq_true', ← Bool.not_eq_true, List.isPrefixOf_iff_prefix] at hother
  exact hother (List.prefix_append _ _)

end Names

section Lines

variable {uptime : Nat} {sumText : Nat → Nat → Bytes} {s : Stats} {name value : Bytes}

theorem name_of_mem_counterLines
    (h : Line.sample name value ∈ counterLines uptime s) :
    name ∈ otherNames.take 9 := by
  have hnames : (counterLines uptime s).filterMap Line.name? = otherNames.take 9 := rfl
  rw [← hnames]
  exact List.mem_filterMap.mpr ⟨_, h, rfl⟩

theorem name_of_mem_summaryLines
    (h : Line.sample name value ∈ summaryLines sumText s) :
    name = infName ∨ name ∈ otherNames := by
  have hnames : (summaryLines sumText s).filterMap Line.name? = infName :: otherNames.drop 9 := rfl
  have hmem : name ∈ (summaryLines sumText s).filterMap Line.name? :=
    List.mem_filterMap.mpr ⟨_, h, rfl⟩
  rw [hnames] at hmem
  exact (List.mem_cons.mp hmem).imp_right List.mem_of_mem_drop

theorem mem_bucketLines_iff
    {i cumulative : Nat} {counts : List Nat} :
    Line.sample name value ∈ bucketLines i cumulative counts ↔
      ∃ m < counts.length, name = bucketName (2 ^ (i + m)) ∧
        value = render (cumulative + (counts.take (m + 1)).sum) := by
  have hbound : ∀ i, (if i = 0 then 1 else 2 ^ i) = 2 ^ i := by
    intro i
    split
    · rename_i hi
      rw [hi]
      rfl
    · rfl
  induction counts generalizing i cumulative with
  | nil => simp [bucketLines]
  | cons count counts ih =>
      rw [bucketLines, List.mem_cons, hbound, Line.sample.injEq]
      refine (or_congr_right ih).trans ?_
      constructor
      · rintro (⟨rfl, rfl⟩ | ⟨m, hm, rfl, rfl⟩)
        · exact ⟨0, Nat.succ_pos _, rfl, by simp⟩
        · refine ⟨m + 1, Nat.succ_lt_succ hm, ?_, ?_⟩
          · rw [Nat.add_assoc, Nat.add_comm 1 m]
          · rw [List.take_succ_cons, List.sum_cons, Nat.add_assoc]
      · rintro ⟨m, hm, rfl, rfl⟩
        cases m with
        | zero => exact .inl ⟨rfl, by simp⟩
        | succ m =>
            refine .inr ⟨m, Nat.lt_of_succ_lt_succ hm, ?_, ?_⟩
            · rw [Nat.add_assoc, Nat.add_comm 1 m]
            · rw [List.take_succ_cons, List.sum_cons, Nat.add_assoc]

/-- The bucket of a bound has the cumulative count of its class. -/
theorem bucket_iff
    {i : Nat} (hi : i < latencyClasses) :
    Line.sample (bucketName (2 ^ i)) value ∈ pageLines uptime sumText s ↔
      value = render (s.latencyBuckets.take (i + 1)).sum := by
  rw [pageLines, List.mem_append, List.mem_append]
  constructor
  · rintro (h | h | h)
    · exact absurd (List.mem_of_mem_take (name_of_mem_counterLines h)) (bucketName_not_mem _)
    · obtain ⟨m, -, hname, hvalue⟩ := mem_bucketLines_iff.mp h
      rw [Nat.zero_add] at hname hvalue
      rw [Nat.pow_right_injective (le_refl 2) (bucketName_inj hname)]
      exact hvalue
    · rcases name_of_mem_summaryLines h with hname | hname
      · exact absurd hname (bucketName_ne_infName _)
      · exact absurd hname (bucketName_not_mem _)
  · intro hvalue
    refine .inr (.inl (mem_bucketLines_iff.mpr ⟨i, by rw [s.buckets_length]; exact hi, ?_, ?_⟩))
    · rw [Nat.zero_add]
    · rw [Nat.zero_add]
      exact hvalue

/-- The bucket without a bound, and the count, have the number of all requests. -/
theorem total_iff
    (hname : name = infName ∨ name = countName) :
    Line.sample name value ∈ pageLines uptime sumText s ↔ value = render s.requestsTotal := by
  rw [pageLines, List.mem_append, List.mem_append]
  constructor
  · rintro (h | h | h)
    · have hcounter := name_of_mem_counterLines h
      rcases hname with rfl | rfl
      · exact absurd hcounter (by decide)
      · exact absurd hcounter (by decide)
    · obtain ⟨m, -, hbucket, -⟩ := mem_bucketLines_iff.mp h
      rcases hname with rfl | rfl
      · exact absurd hbucket.symm (bucketName_ne_infName _)
      · have hother : countName ∈ otherNames := by
          decide
        exact absurd (hbucket ▸ hother) (bucketName_not_mem _)
    · simp only [summaryLines, List.mem_cons, Line.sample.injEq, reduceCtorEq, false_or,
        List.not_mem_nil, or_false] at h
      have hapart : name ≠ ascii "runnginx_request_duration_seconds_sum" ∧
          name ≠ ascii "runnginx_p50_seconds" ∧ name ≠ ascii "runnginx_p99_seconds" := by
        rcases hname with rfl | rfl
        · decide
        · decide
      rcases h with ⟨-, h⟩ | ⟨h, -⟩ | ⟨-, h⟩ | ⟨h, -⟩ | ⟨h, -⟩
      · exact h
      · exact absurd h hapart.1
      · exact h
      · exact absurd h hapart.2.1
      · exact absurd h hapart.2.2
  · rintro rfl
    refine .inr (.inr ?_)
    rcases hname with rfl | rfl
    · exact List.mem_cons_self
    · simp [summaryLines]

end Lines

section Truth

variable {uptime : Nat} {sumText : Nat → Nat → Bytes} {hs : List Handled}

/-- The number of requests that took at most so many microseconds. -/
def atMost (hs : List Handled) (us : Nat) : Nat :=
  hs.countP fun h => decide (h.elapsed ≤ 1000 * us)

/-- The page has the buckets, and says the truth about the requests. -/
structure Truthful (page : List Line) (hs : List Handled) : Prop where
  printed : ∀ i < latencyClasses, ∃ count, .sample (bucketName (2 ^ i)) (render count) ∈ page
  bucket : ∀ i < latencyClasses, ∀ value, .sample (bucketName (2 ^ i)) value ∈ page →
    value = render (atMost hs (2 ^ i))
  ordered : ∀ i j, i ≤ j → j < latencyClasses → ∀ count count',
    .sample (bucketName (2 ^ i)) (render count) ∈ page →
      .sample (bucketName (2 ^ j)) (render count') ∈ page → count ≤ count'
  infinite : ∀ value, .sample infName value ∈ page ↔ value = render hs.length
  count : ∀ value, .sample countName value ∈ page ↔ value = render hs.length

/-- The counts of the classes up to one of them. -/
theorem sum_take_recordAll
    {i : Nat} (hi : i < latencyClasses) :
    ((Stats.recordAll hs).latencyBuckets.take (i + 1)).sum =
      hs.countP fun h => decide (latencyBucket h.us < i + 1) := by
  rw [Stats.latencyBuckets_recordAll, sum_take_classCounts hi, List.countP_map]
  rfl

/-- A request that took at most as long as a bound is in its class or in one before it. -/
theorem bucket_of_atMost
    {h : Handled} {i : Nat} (hi : i < latencyClasses) (hle : h.elapsed ≤ 1000 * 2 ^ i) :
    latencyBucket h.us < i + 1 := by
  have hus : h.us ≤ 2 ^ i := (Nat.mod_le _ _).trans (Nat.div_le_of_le_mul hle)
  have hclass := latencyBucket_mono hus
  rw [latencyBucket_two_pow hi] at hclass
  exact Nat.lt_succ_of_le hclass

/-- A request took at most as long as the bound of its class exactly in these cases. -/
theorem le_bound_iff
    (h : Handled) :
    h.elapsed ≤ 1000 * 2 ^ latencyBucket h.us ↔
      h.elapsed ≤ 1000 ∨ ∃ i < latencyClasses, h.elapsed = 1000 * 2 ^ i := by
  have hclass := latencyBucket_lt h.us
  constructor
  · intro hle
    by_cases hzero : latencyBucket h.us = 0
    · rw [hzero] at hle
      exact .inl hle
    · refine .inr ⟨latencyBucket h.us, hclass, Nat.le_antisymm hle ?_⟩
      have hlow : 2 ^ latencyBucket h.us ≤ h.us := by
        unfold latencyBucket at hzero ⊢
        split
        · rename_i hus
          exact absurd (if_pos hus) hzero
        · rename_i hus
          exact (Nat.pow_le_pow_right (by decide) (Nat.min_le_left _ _)).trans
            (Nat.log2_self_le hus)
      have hus : h.us ≤ h.elapsed / 1000 := Nat.mod_le _ _
      omega
  · rintro (hle | ⟨i, hi, heq⟩)
    · exact hle.trans (Nat.le_mul_of_pos_right _ (Nat.two_pow_pos _))
    · have hpow : 2 ^ i < 2 ^ 64 := Nat.pow_lt_pow_right (by decide) (hi.trans (by decide))
      have hus : h.us = 2 ^ i := by
        rw [Handled.us, heq, Nat.mul_div_cancel_left _ (by decide), Nat.mod_eq_of_lt hpow]
      rw [hus, latencyBucket_two_pow hi, heq]

/--
The page says the truth exactly if no request took a time between two bounds, or more than
the last one.
-/
theorem truthful_iff :
    Truthful (pageLines uptime sumText (Stats.recordAll hs)) hs ↔
      ∀ h ∈ hs, h.elapsed ≤ 1000 ∨ ∃ i < latencyClasses, h.elapsed = 1000 * 2 ^ i := by
  have hcounts : ∀ i < latencyClasses, ∀ value,
      .sample (bucketName (2 ^ i)) value ∈ pageLines uptime sumText (Stats.recordAll hs) ↔
        value = render (hs.countP fun h => decide (latencyBucket h.us < i + 1)) := by
    intro i hi value
    rw [bucket_iff hi, sum_take_recordAll hi]
  have htotal : ∀ name, name = infName ∨ name = countName → ∀ value,
      .sample name value ∈ pageLines uptime sumText (Stats.recordAll hs) ↔
        value = render hs.length := by
    intro name hname value
    rw [total_iff hname, Stats.requestsTotal_recordAll]
  have hexact : ∀ i < latencyClasses,
      (atMost hs (2 ^ i) = hs.countP fun h => decide (latencyBucket h.us < i + 1)) ↔
        ∀ h ∈ hs, latencyBucket h.us < i + 1 → h.elapsed ≤ 1000 * 2 ^ i := by
    intro i hi
    have hcount := countP_eq_iff (l := hs) (p := fun h => decide (h.elapsed ≤ 1000 * 2 ^ i))
      (q := fun h => decide (latencyBucket h.us < i + 1)) fun h _ hle =>
        decide_eq_true (bucket_of_atMost hi (of_decide_eq_true hle))
    simpa [atMost] using hcount
  simp only [← le_bound_iff]
  constructor
  · intro htruth h hh
    have hclass := latencyBucket_lt h.us
    have hbucket := htruth.bucket _ hclass _ ((hcounts _ hclass _).mpr rfl)
    exact (hexact _ hclass).mp (render_inj hbucket).symm h hh (Nat.lt_succ_self _)
  · intro hall
    refine ⟨fun i hi => ⟨_, (hcounts i hi _).mpr rfl⟩, fun i hi value hvalue => ?_,
      fun i j hij hj count count' hcount hcount' => ?_, htotal _ (.inl rfl), htotal _ (.inr rfl)⟩
    · rw [(hcounts i hi value).mp hvalue]
      refine congrArg render ((hexact i hi).mpr fun h hh hclass => ?_).symm
      exact (hall h hh).trans
        (Nat.mul_le_mul_left _ (Nat.pow_le_pow_right (by decide) (Nat.le_of_lt_succ hclass)))
    · rw [render_inj ((hcounts i (hij.trans_lt hj) _).mp hcount),
        render_inj ((hcounts j hj _).mp hcount')]
      refine List.countP_mono_left fun h _ hclass => ?_
      exact decide_eq_true ((of_decide_eq_true hclass).trans_le (Nat.succ_le_succ hij))

/-- A request of 3 microseconds is counted in the bucket up to 2 microseconds. -/
theorem slow_request_counted :
    Line.sample (bucketName 2) (render 1) ∈
        pageLines 0 (fun _ _ => []) (Stats.recordAll [⟨200, 0, 0, 3000⟩]) ∧
      atMost [⟨200, 0, 0, 3000⟩] 2 = 0 ∧
      ¬ Truthful (pageLines 0 (fun _ _ => []) (Stats.recordAll [⟨200, 0, 0, 3000⟩]))
        [⟨200, 0, 0, 3000⟩] := by
  have hline : Line.sample (bucketName (2 ^ 1)) (render 1) ∈
      pageLines 0 (fun _ _ => []) (Stats.recordAll [⟨200, 0, 0, 3000⟩]) :=
    (bucket_iff (by decide)).mpr (by decide)
  refine ⟨hline, by decide, fun htruth => ?_⟩
  have hvalue := htruth.bucket 1 (by decide) _ hline
  exact absurd (render_inj hvalue) (by decide)

end Truth

end Metrics
end RunNginx
