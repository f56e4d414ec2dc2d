import Mathlib.Logic.Relation
import Quantive.WsSharding.Supervisor

/-!
# What a supervisor keeps

Whatever turns its tasks take, a runtime that runs is the installed one of its shard and watched by
its heartbeat, a recorded claim is that of the installed runtime, and nothing runs once `shutdown`
has returned.
-/

namespace Quantive.WsSharding
namespace ShardSupervisor

variable {cfg : SupervisorConfig} {s s' : ShardSupervisor} {n k : ℕ}

/-! ### Turns in which nothing starts -/

/-- What the methods of a runtime keep besides its state. -/
structure Tame (f : ShardRuntime → ShardRuntime) : Prop where
  shardId : ∀ r, (f r).shardId = r.shardId
  claim : ∀ r, (f r).claim = r.claim
  startRaised : ∀ r, (f r).startRaised = r.startRaised
  isRunning : ∀ r, (f r).isRunning = true → r.isRunning = true

theorem tame_id : Tame id := ⟨fun _ => rfl, fun _ => rfl, fun _ => rfl, fun _ h => h⟩

theorem Tame.comp {f g : ShardRuntime → ShardRuntime} (hf : Tame f) (hg : Tame g) :
    Tame (g ∘ f) where
  shardId r := (hg.shardId _).trans (hf.shardId r)
  claim r := (hg.claim _).trans (hf.claim r)
  startRaised r := (hg.startRaised _).trans (hf.startRaised r)
  isRunning r h := hf.isRunning r (hg.isRunning _ h)

theorem fence_isRunning (r : ShardRuntime) : r.fence.isRunning = false := by
  unfold ShardRuntime.fence ShardRuntime.isRunning
  split
  · rename_i h
    rw [h]
    rfl
  · rfl

theorem tame_fence : Tame ShardRuntime.fence := by
  constructor
  · intro r
    unfold ShardRuntime.fence
    split <;> rfl
  · intro r
    unfold ShardRuntime.fence
    split <;> rfl
  · intro r
    unfold ShardRuntime.fence
    split <;> rfl
  · intro r h
    rw [fence_isRunning] at h
    cases h

theorem tame_stop : Tame ShardRuntime.stop := by
  constructor
  · intro r
    unfold ShardRuntime.stop
    split <;> rfl
  · intro r
    unfold ShardRuntime.stop
    split <;> rfl
  · intro r
    unfold ShardRuntime.stop
    split <;> rfl
  · intro r h
    unfold ShardRuntime.stop at h
    split at h
    · exact h
    · exact h

theorem tame_finishStop (wasFenced : Bool) : Tame (ShardRuntime.finishStop wasFenced) := by
  cases wasFenced with
  | true => exact tame_id
  | false => exact ⟨fun _ => rfl, fun _ => rfl, fun _ => rfl, fun _ h => by cases h⟩

/-- No runtime starts, none is installed, and a supervisor that is stopped stays so. -/
structure Subsides (s s' : ShardSupervisor) : Prop where
  objects : ∃ f : ℕ → ShardRuntime → ShardRuntime, (∀ n, Tame (f n)) ∧
    ∀ n, s'.runtimes n = (s.runtimes n).map (f n)
  shards : ∀ k n, s'.activeShards.lookup k = some n → s.activeShards.lookup k = some n
  isRunning : s'.isRunning = true → s.isRunning = true

theorem Subsides.of_eq (hruntimes : s'.runtimes = s.runtimes) (hshards : s'.activeShards = s.activeShards)
    (hrun : s'.isRunning = true → s.isRunning = true) : Subsides s s' := by
  refine ⟨⟨fun _ => id, fun _ => tame_id, fun n => ?_⟩, fun k n h => hshards ▸ h, hrun⟩
  rw [hruntimes, Option.map_id, id]

theorem Subsides.trans {s'' : ShardSupervisor} (h : Subsides s s') (h' : Subsides s' s'') :
    Subsides s s'' := by
  obtain ⟨f, hf, hobjects⟩ := h.objects
  obtain ⟨g, hg, hobjects'⟩ := h'.objects
  refine ⟨⟨fun n => g n ∘ f n, fun n => (hf n).comp (hg n), fun n => ?_⟩,
    fun k n hn => h.shards k n (h'.shards k n hn), fun hrun => h.isRunning (h'.isRunning hrun)⟩
  rw [hobjects', hobjects, Option.map_map]

theorem subsides_onRuntime {f : ShardRuntime → ShardRuntime} (hf : Tame f) :
    Subsides s (s.onRuntime n f) := by
  refine ⟨⟨fun m => if m = n then f else id, fun m => ?_, fun m => ?_⟩, fun _ _ h => h, fun h => h⟩
  · dsimp only
    split
    · exact hf
    · exact tame_id
  · unfold onRuntime
    dsimp only
    by_cases hm : m = n
    · rw [hm, Function.update_self, if_pos rfl]
    · rw [Function.update_of_ne hm, if_neg hm, Option.map_id, id]

theorem Subsides.runs (h : Subsides s s') (hn : s'.runs n = true) : s.runs n = true := by
  obtain ⟨f, hf, hobjects⟩ := h.objects
  unfold ShardSupervisor.runs at hn ⊢
  rw [hobjects] at hn
  cases hr : s.runtimes n with
  | none =>
    rw [hr] at hn
    cases hn
  | some r =>
    rw [hr] at hn
    exact (hf n).isRunning r hn

theorem runs_onRuntime_fence (n : ℕ) : (s.onRuntime n ShardRuntime.fence).runs n = false := by
  unfold ShardSupervisor.runs onRuntime
  dsimp only
  rw [Function.update_self]
  cases s.runtimes n with
  | none => rfl
  | some r => exact fence_isRunning r

/-! ### The invariant -/

/-- A runtime that was started without an exception and runs. -/
def Live (s : ShardSupervisor) (n : ℕ) (r : ShardRuntime) : Prop :=
  s.runtimes n = some r ∧ r.isRunning = true ∧ r.startRaised = false

/-- The heartbeat goes on. -/
def Heartbeat.Watches (h : Heartbeat) : Prop :=
  h.cancelled = false ∧ (h.at = .created ∨ h.at = .sleeping ∨ ∃ reply, h.at = .renewing reply)

/-- What holds while a call has the lock. -/
def Holder.Fits (s : ShardSupervisor) : Holder → Prop
  | .acquiring claim _ => ∀ n, s.activeShards.lookup claim.shardId = some n → s.runs n = false
  | .registering claim => ∀ n, s.activeShards.lookup claim.shardId = some n → s.runs n = false
  | .confirming claim _ => ∀ n, s.activeShards.lookup claim.shardId = some n → s.runs n = false
  | .releasing _ _ => True
  | .joining _ => s.isRunning = false
  | .stopping _ _ rest => s.isRunning = false ∧
      ∀ k n, s.activeShards.lookup k = some n → s.runs n = true → n ∈ rest
  | .handingBack _ _ _ => s.isRunning = false ∧
      ∀ k n, s.activeShards.lookup k = some n → s.runs n = false

structure Supervised (s : ShardSupervisor) : Prop where
  installed : ∀ k n, s.activeShards.lookup k = some n →
    ∃ r, s.runtimes n = some r ∧ r.shardId = k
  recorded : ∀ k c, s.activeClaims.lookup k = some c →
    ∃ n r, s.activeShards.lookup k = some n ∧ s.runtimes n = some r ∧ r.claim = c
  live : ∀ n r, s.Live n r → s.activeShards.lookup r.shardId = some n
  watched : s.isRunning = true → ∀ n r, s.Live n r →
    ∃ h, s.heartbeats n = some h ∧ Heartbeat.Watches h
  cleaned : ∀ n b wasFenced, s.heartbeats n = some b → b.at = .stopping wasFenced →
    ∃ r, s.runtimes n = some r ∧ r.isRunning = false
  fresh : ∀ n, s.made ≤ n → s.runtimes n = none
  closing : Call.shutdown ∈ s.waiting → s.isRunning = false
  holder : ∀ h, s.holder = some h → Holder.Fits s h

theorem Subsides.live {r' : ShardRuntime} (h : Subsides s s') (hn : s'.Live n r') :
    ∃ r, s.Live n r ∧ r'.shardId = r.shardId ∧ r'.claim = r.claim := by
  obtain ⟨f, hf, hobjects⟩ := h.objects
  obtain ⟨hr', hrun, hraised⟩ := hn
  rw [hobjects] at hr'
  obtain ⟨r, hr, rfl⟩ := Option.map_eq_some_iff.mp hr'
  exact ⟨r, ⟨hr, (hf n).isRunning r hrun, (hf n).startRaised r ▸ hraised⟩, (hf n).shardId r,
    (hf n).claim r⟩

theorem Subsides.object {r : ShardRuntime} (h : Subsides s s') (hr : s.runtimes n = some r) :
    ∃ r', s'.runtimes n = some r' ∧ r'.shardId = r.shardId ∧ r'.claim = r.claim := by
  obtain ⟨f, hf, hobjects⟩ := h.objects
  refine ⟨f n r, ?_, (hf n).shardId r, (hf n).claim r⟩
  rw [hobjects, hr]
  rfl

theorem Subsides.fits {h : Holder} (hs : Subsides s s') (hh : Holder.Fits s h) : Holder.Fits s' h := by
  have hstopped : s.isRunning = false → s'.isRunning = false := by
    intro hfalse
    by_contra hrun
    have hbefore := hs.isRunning (Bool.eq_true_of_not_eq_false hrun)
    rw [hfalse] at hbefore
    cases hbefore
  have hidle : ∀ m, s.runs m = false → s'.runs m = false := by
    intro m hm
    by_contra hrun
    have hbefore := hs.runs (Bool.eq_true_of_not_eq_false hrun)
    rw [hm] at hbefore
    cases hbefore
  cases h with
  | acquiring claim reply => exact fun n hn => hidle n (hh n (hs.shards _ n hn))
  | registering claim => exact fun n hn => hidle n (hh n (hs.shards _ n hn))
  | confirming claim reply => exact fun n hn => hidle n (hh n (hs.shards _ n hn))
  | releasing claim reply => trivial
  | joining tasks => exact hstopped hh
  | stopping m wasFenced rest =>
    exact ⟨hstopped hh.1, fun k n hn hrun => hh.2 k n (hs.shards k n hn) (hs.runs hrun)⟩
  | handingBack claim reply rest =>
    exact ⟨hstopped hh.1, fun k n hn => hidle n (hh.2 k n (hs.shards k n hn))⟩

/-- A turn in which nothing starts, and the dictionaries lose only what does not run. -/
theorem Supervised.subsides (hs : s.Supervised) (h : Subsides s s') (hmade : s'.made = s.made)
    (hclaims : ∀ k c, s'.activeClaims.lookup k = some c → s.activeClaims.lookup k = some c ∧
      s'.activeShards.lookup k = s.activeShards.lookup k)
    (hshards : ∀ n r, s'.Live n r → s.activeShards.lookup r.shardId = some n →
      s'.activeShards.lookup r.shardId = some n)
    (hbeats : s'.isRunning = true → ∀ n r, s'.Live n r → ∀ b, s.heartbeats n = some b →
      Heartbeat.Watches b → ∃ b', s'.heartbeats n = some b' ∧ Heartbeat.Watches b')
    (hcleaned : ∀ n b wasFenced, s'.heartbeats n = some b → b.at = .stopping wasFenced →
      (∃ b₀, s.heartbeats n = some b₀ ∧ b₀.at = .stopping wasFenced) ∨
        ∃ r, s'.runtimes n = some r ∧ r.isRunning = false)
    (hwaiting : Call.shutdown ∈ s'.waiting → s'.isRunning = false)
    (hholder : ∀ h, s'.holder = some h → Holder.Fits s' h) : s'.Supervised where
  installed k n hn := by
    obtain ⟨r, hr, hk⟩ := hs.installed k n (h.shards k n hn)
    obtain ⟨r', hr', hshard, -⟩ := h.object hr
    exact ⟨r', hr', hshard.trans hk⟩
  recorded k c hc := by
    obtain ⟨hbefore, hsame⟩ := hclaims k c hc
    obtain ⟨n, r, hn, hr, hclaim⟩ := hs.recorded k c hbefore
    obtain ⟨r', hr', -, hclaim'⟩ := h.object hr
    exact ⟨n, r', hsame.trans hn, hr', hclaim'.trans hclaim⟩
  live n r' hn := by
    obtain ⟨r, hr, hshard, -⟩ := h.live hn
    exact hshards n r' hn (hshard ▸ hs.live n r hr)
  watched hrun n r' hn := by
    obtain ⟨r, hr, -, -⟩ := h.live hn
    obtain ⟨b, hb, hwatches⟩ := hs.watched (h.isRunning hrun) n r hr
    exact hbeats hrun n r' hn b hb hwatches
  cleaned n b wasFenced hb hat := by
    rcases hcleaned n b wasFenced hb hat with ⟨b₀, hb₀, hat₀⟩ | hidle
    · obtain ⟨f, hf, hobjects⟩ := h.objects
      obtain ⟨r, hr, hidle⟩ := hs.cleaned n b₀ wasFenced hb₀ hat₀
      refine ⟨f n r, ?_, ?_⟩
      · rw [hobjects, hr]
        rfl
      · by_contra hrun
        rw [(hf n).isRunning r (Bool.eq_true_of_not_eq_false hrun)] at hidle
        cases hidle
    · exact hidle
  fresh n hle := by
    obtain ⟨f, -, hobjects⟩ := h.objects
    rw [hobjects, hs.fresh n (hmade ▸ hle)]
    rfl
  closing := hwaiting
  holder := hholder

/-- A turn that leaves dictionaries and heartbeats alone. -/
theorem Supervised.still (hs : s.Supervised) (h : Subsides s s') (hmade : s'.made = s.made)
    (hshards : s'.activeShards = s.activeShards) (hclaims : s'.activeClaims = s.activeClaims)
    (hbeats : s'.heartbeats = s.heartbeats)
    (hwaiting : Call.shutdown ∈ s'.waiting → s'.isRunning = false)
    (hholder : ∀ h, s'.holder = some h → Holder.Fits s' h) : s'.Supervised := by
  refine hs.subsides h hmade (fun k c hc => ⟨hclaims ▸ hc, by rw [hshards]⟩)
    (fun n r _ hn => hshards ▸ hn) (fun _ n r _ b hb hwatches => ⟨b, hbeats ▸ hb, hwatches⟩)
    (fun n b wasFenced hb hat => .inl ⟨b, hbeats ▸ hb, hat⟩) hwaiting hholder

/-! ### Every turn keeps it -/

theorem Live.runs {r : ShardRuntime} (h : s.Live n r) : s.runs n = true := by
  unfold ShardSupervisor.runs
  rw [h.1]
  exact h.2.1

theorem supervised_started (stores : Stores) : (started stores).Supervised where
  installed k n h := by cases h
  recorded k c h := by cases h
  live n r h := by cases h.1
  watched _ n r h := by cases h.1
  cleaned n b wasFenced h := by cases h
  fresh _ _ := rfl
  closing h := by cases h
  holder h hh := by cases hh

theorem supervised_call (hs : s.Supervised) (c : Call) : (s.call c).Supervised := by
  cases c with
  | attemptAcquireShard shardId =>
    have hsub : Subsides s (s.call (.attemptAcquireShard shardId)) := .of_eq rfl rfl fun h => h
    refine hs.still hsub rfl rfl rfl rfl (fun h => ?_) fun h hh => hsub.fits (hs.holder h hh)
    rcases List.mem_append.mp h with h | h
    · exact hs.closing h
    · cases List.mem_singleton.mp h
  | shutdown =>
    by_cases hidle : (!s.isRunning && s.activeShards.entries.isEmpty) = true
    · rw [call, if_pos hidle]
      exact hs
    · rw [call, if_neg hidle]
      have hsub : Subsides s { s with isRunning := false, waiting := s.waiting ++ [.shutdown] } :=
        .of_eq rfl rfl fun h => by cases h
      exact hs.still hsub rfl rfl rfl rfl (fun _ => rfl) fun h hh => hsub.fits (hs.holder h hh)

theorem supervised_withHolder (hs : s.Supervised) {h : Option Holder}
    (hfits : ∀ x, h = some x → Holder.Fits s x) : (s.withHolder h).Supervised :=
  have hsub : Subsides s (s.withHolder h) := .of_eq rfl rfl fun h => h
  hs.still hsub rfl rfl rfl rfl hs.closing fun x hx => hsub.fits (hfits x hx)

theorem supervised_onRuntime (hs : s.Supervised) {f : ShardRuntime → ShardRuntime} (hf : Tame f) :
    (s.onRuntime n f).Supervised :=
  have hsub := subsides_onRuntime hf
  hs.still hsub rfl rfl rfl rfl hs.closing fun x hx => hsub.fits (hs.holder x hx)

theorem supervised_rest (hs : s.Supervised) {c : Call} {rest : List Call} (h : s.waiting = c :: rest) :
    ({ s with waiting := rest } : ShardSupervisor).Supervised := by
  have hsub : Subsides s { s with waiting := rest } := .of_eq rfl rfl fun h => h
  refine hs.still hsub rfl rfl rfl rfl (fun hmem => hs.closing ?_) fun x hx => hsub.fits (hs.holder x hx)
  rw [h]
  exact List.mem_cons_of_mem _ hmem

theorem supervised_enterAcquire (hs : s.Supervised) (shardId claimToken : ℕ) (now : ℤ) :
    (s.enterAcquire cfg shardId claimToken now).Supervised := by
  unfold enterAcquire
  split
  · exact supervised_withHolder hs fun x hx => by cases hx
  · rename_i hidle
    refine supervised_withHolder hs fun x hx => ?_
    obtain rfl := Option.some.inj hx
    intro n hn
    change s.activeShards.lookup shardId = some n at hn
    rw [hn] at hidle
    exact Bool.eq_false_of_not_eq_true hidle

theorem supervised_enterShutdown (hs : s.Supervised) (hclosed : s.isRunning = false) :
    s.enterShutdown.Supervised := by
  have hsub : Subsides s s.enterShutdown := .of_eq rfl rfl fun h => h
  refine hs.subsides hsub rfl (fun k c hc => ⟨hc, rfl⟩) (fun n r _ hn => hn) (fun hrun => ?_)
    (fun n b wasFenced hb hat => .inl ?_) hs.closing fun x hx => ?_
  · have hfalse : s.isRunning = true := hrun
    rw [hclosed] at hfalse
    cases hfalse
  · change (if n ∈ values s.heartbeatTasks then _ else s.heartbeats n) = some b at hb
    split at hb
    · obtain ⟨b₀, hb₀, rfl⟩ := Option.map_eq_some_iff.mp hb
      exact ⟨b₀, hb₀, hat⟩
    · exact ⟨b, hb, hat⟩
  · obtain rfl := Option.some.inj hx
    exact hclosed

theorem Supervised.ne_made (hs : s.Supervised) {r : ShardRuntime} (hr : s.runtimes n = some r) :
    n ≠ s.made := by
  rintro rfl
  rw [hs.fresh _ le_rfl] at hr
  cases hr

theorem startRuntime_other (claim : ShardLeaseClaim) (raises : Bool) (hn : n ≠ s.made) :
    (s.startRuntime claim raises).runtimes n = s.runtimes n := by
  cases raises <;> exact Function.update_of_ne hn _ _

theorem startRuntime_self (claim : ShardLeaseClaim) :
    (s.startRuntime claim false).runtimes s.made =
      some ({ shardId := claim.shardId, claim := claim } : ShardRuntime).start :=
  Function.update_self _ _ _

theorem startRuntime_raising {claim : ShardLeaseClaim} {r : ShardRuntime}
    (h : (s.startRuntime claim true).Live n r) : s.Live n r := by
  obtain ⟨hr, hrun, hraised⟩ := h
  by_cases hn : n = s.made
  · change Function.update s.runtimes s.made _ n = some r at hr
    rw [hn, Function.update_self] at hr
    obtain rfl := Option.some.inj hr
    cases hraised
  · rw [startRuntime_other claim true hn] at hr
    exact ⟨hr, hrun, hraised⟩

/-- The runtime that the new one takes the place of does not run. -/
theorem startRuntime_live (hs : s.Supervised) {claim : ShardLeaseClaim}
    (hidle : ∀ n, s.activeShards.lookup claim.shardId = some n → s.runs n = false) {r : ShardRuntime}
    (h : (s.startRuntime claim false).Live n r) :
    n = s.made ∧ r = ({ shardId := claim.shardId, claim := claim } : ShardRuntime).start ∨
      n ≠ s.made ∧ s.Live n r ∧ r.shardId ≠ claim.shardId := by
  obtain ⟨hr, hrun, hraised⟩ := h
  by_cases hn : n = s.made
  · rw [hn, startRuntime_self] at hr
    exact .inl ⟨hn, (Option.some.inj hr).symm⟩
  · rw [startRuntime_other claim false hn] at hr
    have hbefore : s.Live n r := ⟨hr, hrun, hraised⟩
    refine .inr ⟨hn, hbefore, fun hshard => ?_⟩
    have hstill := hidle n (hshard ▸ hs.live n r hbefore)
    rw [hbefore.runs] at hstill
    cases hstill

theorem supervised_startRuntime (hs : s.Supervised) {claim : ShardLeaseClaim}
    (hidle : ∀ n, s.activeShards.lookup claim.shardId = some n → s.runs n = false) (raises : Bool) :
    (s.startRuntime claim raises).Supervised := by
  have hkept : ∀ {n r}, s.runtimes n = some r → (s.startRuntime claim raises).runtimes n = some r :=
    fun hr => (startRuntime_other claim raises (hs.ne_made hr)).trans hr
  have hfresh : ∀ n, (s.startRuntime claim raises).made ≤ n →
      (s.startRuntime claim raises).runtimes n = none := by
    intro n hle
    have hmade : (s.startRuntime claim raises).made = s.made + 1 := by cases raises <;> rfl
    rw [hmade] at hle
    rw [startRuntime_other claim raises (by omega)]
    exact hs.fresh n (by omega)
  cases raises with
  | true =>
    constructor
    · intro k n hn
      obtain ⟨r, hr, hk⟩ := hs.installed k n hn
      exact ⟨r, hkept hr, hk⟩
    · intro k c hc
      obtain ⟨n, r, hn, hr, hclaim⟩ := hs.recorded k c hc
      exact ⟨n, r, hn, hkept hr, hclaim⟩
    · intro n r hr
      exact hs.live n r (startRuntime_raising hr)
    · intro hrun n r hr
      exact hs.watched hrun n r (startRuntime_raising hr)
    · intro n b wasFenced hb hat
      obtain ⟨r, hr, hidle⟩ := hs.cleaned n b wasFenced hb hat
      exact ⟨r, hkept hr, hidle⟩
    · exact hfresh
    · exact hs.closing
    · intro h hh
      obtain rfl := Option.some.inj hh
      trivial
  | false =>
    constructor
    · intro k n hn
      change (s.activeShards.insert claim.shardId s.made).lookup k = some n at hn
      by_cases hk : k = claim.shardId
      · rw [hk, AList.lookup_insert] at hn
        obtain rfl := Option.some.inj hn
        exact ⟨_, startRuntime_self claim, hk.symm⟩
      · rw [AList.lookup_insert_ne hk] at hn
        obtain ⟨r, hr, hshard⟩ := hs.installed k n hn
        exact ⟨r, hkept hr, hshard⟩
    · intro k c hc
      change (s.activeClaims.insert claim.shardId claim).lookup k = some c at hc
      change ∃ n r, (s.activeShards.insert claim.shardId s.made).lookup k = some n ∧ _
      by_cases hk : k = claim.shardId
      · rw [hk, AList.lookup_insert] at hc
        obtain rfl := Option.some.inj hc
        exact ⟨s.made, _, hk ▸ AList.lookup_insert _, startRuntime_self _, rfl⟩
      · rw [AList.lookup_insert_ne hk] at hc
        obtain ⟨n, r, hn, hr, hclaim⟩ := hs.recorded k c hc
        exact ⟨n, r, (AList.lookup_insert_ne hk).trans hn, hkept hr, hclaim⟩
    · intro n r hr
      change (s.activeShards.insert claim.shardId s.made).lookup r.shardId = some n
      rcases startRuntime_live hs hidle hr with ⟨rfl, rfl⟩ | ⟨-, hbefore, hshard⟩
      · exact AList.lookup_insert _
      · rw [AList.lookup_insert_ne hshard]
        exact hs.live n r hbefore
    · intro hrun n r hr
      change ∃ h, Function.update s.heartbeats s.made _ n = some h ∧ _
      rcases startRuntime_live hs hidle hr with ⟨rfl, rfl⟩ | ⟨hn, hbefore, -⟩
      · rw [Function.update_self]
        exact ⟨_, rfl, rfl, .inl rfl⟩
      · rw [Function.update_of_ne hn]
        exact hs.watched hrun n r hbefore
    · intro n b wasFenced hb hat
      change Function.update s.heartbeats s.made _ n = some b at hb
      by_cases hn : n = s.made
      · rw [hn, Function.update_self] at hb
        obtain rfl := Option.some.inj hb
        cases hat
      · rw [Function.update_of_ne hn] at hb
        obtain ⟨r, hr, hidle⟩ := hs.cleaned n b wasFenced hb hat
        exact ⟨r, hkept hr, hidle⟩
    · exact hfresh
    · exact hs.closing
    · intro h hh
      cases hh

theorem subsides_withHolder (h : Option Holder) : Subsides s (s.withHolder h) :=
  .of_eq rfl rfl fun h => h

theorem subsides_handBack (claims : List ShardLeaseClaim) : Subsides s (s.handBack claims) := by
  cases claims with
  | nil =>
    refine ⟨⟨fun _ => id, fun _ => tame_id, fun n => ?_⟩, fun k n hn => ?_, fun h => h⟩
    · rw [Option.map_id]
      rfl
    · cases hn
  | cons claim rest => exact subsides_withHolder _

theorem subsides_stopRuntimes (rest : List ℕ) : Subsides s (s.stopRuntimes rest) := by
  cases rest with
  | nil => exact subsides_handBack _
  | cons n rest =>
    exact ((subsides_onRuntime tame_fence).trans (subsides_onRuntime tame_stop)).trans
      (subsides_withHolder _)

/-- What has not been stopped yet is in the list. -/
theorem supervised_handBack (hs : s.Supervised) (hclosed : s.isRunning = false)
    (hidle : ∀ k n, s.activeShards.lookup k = some n → s.runs n = false)
    (claims : List ShardLeaseClaim) : (s.handBack claims).Supervised := by
  cases claims with
  | nil =>
    have hsub := subsides_handBack (s := s) []
    refine hs.subsides hsub rfl (fun k c hc => by cases hc) (fun n r hr hn => ?_) (fun hrun => ?_)
      (fun n b wasFenced hb hat => .inl ⟨b, hb, hat⟩) hs.closing fun h hh => by cases hh
    · have hstill := hidle _ n hn
      obtain ⟨r', hr', -⟩ := hsub.live hr
      rw [hr'.runs] at hstill
      cases hstill
    · have hfalse : s.isRunning = true := hrun
      rw [hclosed] at hfalse
      cases hfalse
  | cons claim rest =>
    refine supervised_withHolder hs fun x hx => ?_
    obtain rfl := Option.some.inj hx
    exact ⟨hclosed, hidle⟩

theorem supervised_stopRuntimes (hs : s.Supervised) (hclosed : s.isRunning = false) {rest : List ℕ}
    (hrest : ∀ k n, s.activeShards.lookup k = some n → s.runs n = true → n ∈ rest) :
    (s.stopRuntimes rest).Supervised := by
  cases rest with
  | nil =>
    refine supervised_handBack hs hclosed (fun k n hn => ?_) _
    by_contra hrun
    cases hrest k n hn (Bool.eq_true_of_not_eq_false hrun)
  | cons m rest =>
    have hfenced := supervised_onRuntime (n := m) hs tame_fence
    refine supervised_withHolder (supervised_onRuntime hfenced tame_stop) fun x hx => ?_
    obtain rfl := Option.some.inj hx
    refine ⟨hclosed, fun k n hn hrun => ?_⟩
    have hfence : (s.onRuntime m ShardRuntime.fence).runs n = true :=
      (subsides_onRuntime tame_stop).runs hrun
    rcases List.mem_cons.mp (hrest k n hn ((subsides_onRuntime tame_fence).runs hfence)) with rfl | hmem
    · rw [runs_onRuntime_fence] at hfence
      cases hfence
    · exact hmem

theorem supervised_moveHeartbeat (hs : s.Supervised) {«at» : HeartbeatAt}
    (hat : ∀ wasFenced, «at» ≠ .stopping wasFenced)
    (hok : s.isRunning = true → ∀ r, s.Live n r → ∀ h, s.heartbeats n = some h → Heartbeat.Watches h →
      Heartbeat.Watches { h with «at» }) : (s.moveHeartbeat n «at»).Supervised := by
  have hsub : Subsides s (s.moveHeartbeat n «at») := .of_eq rfl rfl fun h => h
  refine hs.subsides hsub rfl (fun k c hc => ⟨hc, rfl⟩) (fun m r _ hm => hm)
    (fun hrun m r hm b hb hwatches => ?_) (fun m b wasFenced hb hstop => .inl ?_)
    hs.closing fun x hx => hsub.fits (hs.holder x hx)
  · change ∃ b', Function.update s.heartbeats n _ m = some b' ∧ _
    by_cases hmn : m = n
    · rw [hmn, Function.update_self]
      rw [hmn] at hb hm
      rw [hb]
      exact ⟨_, rfl, hok hrun r hm b hb hwatches⟩
    · rw [Function.update_of_ne hmn]
      exact ⟨b, hb, hwatches⟩
  · change Function.update s.heartbeats n _ m = some b at hb
    by_cases hmn : m = n
    · rw [hmn, Function.update_self] at hb
      obtain ⟨b₀, -, rfl⟩ := Option.map_eq_some_iff.mp hb
      exact absurd hstop (hat wasFenced)
    · rw [Function.update_of_ne hmn] at hb
      exact ⟨b, hb, hstop⟩

/-- A heartbeat that does not watch may end. -/
theorem supervised_done (hs : s.Supervised) {h : Heartbeat} (hh : s.heartbeats n = some h)
    (hidle : s.isRunning = true → s.runs n = true → ¬ Heartbeat.Watches h) :
    (s.moveHeartbeat n .done).Supervised := by
  refine supervised_moveHeartbeat hs (fun _ h => by cases h) fun hrun r hr b hb hwatches => ?_
  rw [hh] at hb
  obtain rfl := Option.some.inj hb
  exact absurd hwatches (hidle hrun hr.runs)

theorem supervised_loopHead (hs : s.Supervised) : (s.moveHeartbeat n (s.loopHead n)).Supervised := by
  have hat : ∀ wasFenced, s.loopHead n ≠ .stopping wasFenced := by
    intro wasFenced
    unfold loopHead
    split
    · exact fun h => by cases h
    · exact fun h => by cases h
  refine supervised_moveHeartbeat hs hat fun hrun r hr b _ hwatches => ?_
  unfold loopHead
  rw [hrun, hr.runs]
  exact ⟨hwatches.1, .inr (.inl rfl)⟩

theorem runs_cleanup (n : ℕ) (r : ShardRuntime) : (s.cleanupFencedShard n r).runs n = false := by
  have hfence := runs_onRuntime_fence (s := s) n
  by_contra hrun
  have hstop : (s.onRuntime n ShardRuntime.fence).runs n = true :=
    (subsides_onRuntime (s := s.onRuntime n ShardRuntime.fence) (n := n) tame_stop).runs
      (Bool.eq_true_of_not_eq_false hrun)
  rw [hfence] at hstop
  cases hstop

theorem subsides_cleanup (n : ℕ) (r : ShardRuntime) : Subsides s (s.cleanupFencedShard n r) := by
  have hobjects := ((subsides_onRuntime (s := s) (n := n) tame_fence).trans
    (subsides_onRuntime (n := n) tame_stop)).objects
  refine ⟨hobjects, fun k m hm => ?_, fun h => h⟩
  change (if s.activeShards.lookup r.shardId = some n then s.activeShards.erase r.shardId
    else s.activeShards).lookup k = some m at hm
  split at hm
  · by_cases hk : k = r.shardId
    · rw [hk, AList.lookup_erase] at hm
      cases hm
    · rwa [AList.lookup_erase_ne hk] at hm
  · exact hm

theorem supervised_cleanup (hs : s.Supervised) {r : ShardRuntime} (hr : s.runtimes n = some r) :
    (s.cleanupFencedShard n r).Supervised := by
  have hidle : ∀ r', ¬ (s.cleanupFencedShard n r).Live n r' := by
    intro r' hn
    have hruns := hn.runs
    rw [runs_cleanup] at hruns
    cases hruns
  have hsub := subsides_cleanup (s := s) n r
  refine hs.subsides hsub rfl (fun k c hc => ?_) (fun m r' hm hin => ?_) (fun _ m r' hm b hb hwatches => ?_)
    (fun m b wasFenced hb hat => ?_) hs.closing fun x hx => hsub.fits (hs.holder x hx)
  · change (s.activeClaims.erase r.shardId).lookup k = some c at hc
    change _ ∧ (if s.activeShards.lookup r.shardId = some n then s.activeShards.erase r.shardId
      else s.activeShards).lookup k = _
    by_cases hk : k = r.shardId
    · rw [hk, AList.lookup_erase] at hc
      cases hc
    · rw [AList.lookup_erase_ne hk] at hc
      refine ⟨hc, ?_⟩
      split
      · exact AList.lookup_erase_ne hk
      · rfl
  · change (if s.activeShards.lookup r.shardId = some n then s.activeShards.erase r.shardId
      else s.activeShards).lookup r'.shardId = some m
    split
    · rename_i hinstalled
      have hshard : r'.shardId ≠ r.shardId := by
        intro hshard
        rw [hshard, hinstalled] at hin
        obtain rfl := Option.some.inj hin
        exact hidle r' hm
      rw [AList.lookup_erase_ne hshard]
      exact hin
    · exact hin
  · have hmn : m ≠ n := by
      rintro rfl
      exact hidle r' hm
    refine ⟨b, ?_, hwatches⟩
    change Function.update s.heartbeats n _ m = some b
    rw [Function.update_of_ne hmn]
    exact hb
  · change Function.update s.heartbeats n _ m = some b at hb
    by_cases hmn : m = n
    · refine .inr ?_
      obtain ⟨r', hr', -⟩ := hsub.object hr
      refine ⟨r', hmn ▸ hr', ?_⟩
      have hruns := runs_cleanup (s := s) n r
      unfold ShardSupervisor.runs at hruns
      rw [hr'] at hruns
      exact hruns
    · rw [Function.update_of_ne hmn] at hb
      exact .inl ⟨b, hb, hat⟩

theorem supervised_serveHolder (hs : s.Supervised) (h : s.serveHolder cfg = some s') :
    s'.Supervised := by
  have hkeep : ∀ (stores : Stores) (x : Holder), Holder.Fits s x →
      ({ s with stores := stores, holder := some x } : ShardSupervisor).Supervised := by
    intro stores x hx
    have hsub : Subsides s { s with stores := stores, holder := some x } := .of_eq rfl rfl fun h => h
    refine hs.still hsub rfl rfl rfl rfl hs.closing fun y hy => ?_
    obtain rfl := Option.some.inj hy
    exact hsub.fits hx
  unfold serveHolder at h
  split at h
  · rename_i claim hholder
    have hfits := hs.holder _ hholder
    obtain rfl := Option.some.inj h
    exact hkeep _ _ hfits
  · rename_i claim hholder
    have hfits := hs.holder _ hholder
    obtain rfl := Option.some.inj h
    exact hkeep _ _ hfits
  · rename_i claim hholder
    have hfits := hs.holder _ hholder
    obtain rfl := Option.some.inj h
    exact hkeep _ _ hfits
  · rename_i claim rest hholder
    have hfits := hs.holder _ hholder
    obtain rfl := Option.some.inj h
    exact hkeep _ _ hfits
  · cases h

theorem supervised_resumeHolder (hs : s.Supervised) {x : Holder} (hx : s.holder = some x)
    {raises : Bool} {outcome : Outcome} (h : s.resumeHolder cfg raises x outcome = some s') :
    s'.Supervised := by
  have hfits := hs.holder x hx
  have hfree : (s.withHolder none).Supervised := supervised_withHolder hs fun y hy => by cases hy
  have hrelease : ∀ claim, (s.withHolder (some (.releasing claim none))).Supervised := by
    intro claim
    refine supervised_withHolder hs fun y hy => ?_
    obtain rfl := Option.some.inj hy
    trivial
  unfold resumeHolder at h
  split at h
  · cases h
    exact hfree
  · split at h
    · cases h
      exact hfree
    · split at h
      · cases h
        refine supervised_withHolder hs fun y hy => ?_
        obtain rfl := Option.some.inj hy
        exact hfits
      · cases h
        refine supervised_startRuntime hs ?_ raises
        exact hfits
  · cases h
    refine supervised_withHolder hs fun y hy => ?_
    obtain rfl := Option.some.inj hy
    exact hfits
  · cases h
    exact hrelease _
  · cases h
    exact hrelease _
  · split at h
    · cases h
      exact supervised_startRuntime hs hfits raises
    · cases h
      exact hrelease _
  · cases h
    exact hrelease _
  · cases h
    exact hfree
  · cases h
    exact hfree
  · split at h
    · cases h
      have hcleared : ({ s with heartbeatTasks := ∅ } : ShardSupervisor).Supervised := by
        have hsub : Subsides s { s with heartbeatTasks := ∅ } := .of_eq rfl rfl fun h => h
        exact hs.still hsub rfl rfl rfl rfl hs.closing fun y hy => hsub.fits (hs.holder y hy)
      refine supervised_stopRuntimes hcleared hfits fun k n hn _ => ?_
      exact List.mem_map.mpr ⟨⟨k, n⟩, AList.mem_lookup_iff.mp hn, rfl⟩
    · cases h
  · cases h
    rename_i n wasFenced rest
    have hsub := subsides_onRuntime (s := s) (n := n) (tame_finishStop wasFenced)
    exact supervised_stopRuntimes (supervised_onRuntime hs (tame_finishStop wasFenced)) hfits.1
      fun k m hm hrun => hfits.2 k m hm (hsub.runs hrun)
  · cases h
    exact hfree
  · cases h
    exact supervised_handBack hs hfits.1 hfits.2 _
  · cases h
    exact supervised_handBack hs hfits.1 hfits.2 _
  · cases h

theorem supervised_beat (hs : s.Supervised) {r : ShardRuntime} {h : Heartbeat}
    (hr : s.runtimes n = some r) (hh : s.heartbeats n = some h) {b : Beat}
    (hact : s.beat cfg n r h b = some s') : s'.Supervised := by
  cases b with
  | wake =>
    unfold beat at hact
    dsimp only at hact
    split at hact
    · cases hact
    · split at hact
      · cases hact
        exact supervised_loopHead hs
      · cases hact
        refine supervised_moveHeartbeat hs (fun wasFenced h => ?_) fun hrun r hr b _ hwatches => ?_
        · split at h <;> cases h
        rw [hrun, hr.runs]
        exact ⟨hwatches.1, .inr (.inr ⟨_, rfl⟩)⟩
      · cases hact
  | serve =>
    unfold beat at hact
    dsimp only at hact
    split at hact
    · cases hact
      have hstores : ∀ stores, ({ s with stores := stores } : ShardSupervisor).Supervised := by
        intro stores
        have hsub : Subsides s { s with stores := stores } := .of_eq rfl rfl fun h => h
        exact hs.still hsub rfl rfl rfl rfl hs.closing fun x hx => hsub.fits (hs.holder x hx)
      exact supervised_moveHeartbeat (hstores _) (fun _ h => by cases h) fun _ _ _ _ _ hwatches =>
        ⟨hwatches.1, .inr (.inr ⟨_, rfl⟩)⟩
    · cases hact
  | resume outcome =>
    unfold beat at hact
    dsimp only at hact
    split at hact
    · split at hact
      · cases hact
      · split at hact
        · cases hact
          exact supervised_loopHead hs
        · cases hact
          exact supervised_cleanup hs hr
    · split at hact
      · cases hact
      · cases hact
        exact supervised_cleanup hs hr
    · cases hact
      rename_i wasFenced hat
      refine supervised_done (supervised_onRuntime hs (tame_finishStop wasFenced)) hh fun _ _ hwatches => ?_
      rcases hwatches.2 with h | h | ⟨reply, h⟩ <;> rw [hat] at h <;> cases h
    · cases hact
      rename_i wasFenced hat
      refine supervised_done hs hh fun _ _ hwatches => ?_
      rcases hwatches.2 with h | h | ⟨reply, h⟩ <;> rw [hat] at h <;> cases h
    · cases hact
  | cancelled =>
    unfold beat at hact
    dsimp only at hact
    split at hact
    · rename_i hcancelled
      cases hact
      rw [Bool.and_eq_true] at hcancelled
      refine supervised_done hs hh fun _ _ hwatches => ?_
      rw [hwatches.1] at hcancelled
      cases hcancelled.1
    · cases hact

theorem supervised_act (hs : s.Supervised) {a : Act} (h : s.act cfg a = some s') : s'.Supervised := by
  cases a with
  | call c =>
    cases h
    exact supervised_call hs c
  | enter claimToken now =>
    unfold act at h
    dsimp only at h
    split at h
    · cases h
      rename_i shardId rest _ hwaiting
      exact supervised_enterAcquire (supervised_rest hs hwaiting) shardId claimToken now
    · cases h
      rename_i rest _ hwaiting
      exact supervised_enterShutdown (supervised_rest hs hwaiting)
        (hs.closing (hwaiting ▸ List.mem_cons_self))
    · cases h
  | serve => exact supervised_serveHolder hs h
  | resume outcome raises =>
    obtain ⟨x, hx, hresume⟩ := Option.bind_eq_some_iff.mp h
    exact supervised_resumeHolder hs hx hresume
  | beat n b =>
    unfold act at h
    dsimp only at h
    split at h
    · rename_i r b' hr hb
      exact supervised_beat hs hr hb h
    · cases h
  | fenceInside n =>
    cases h
    exact supervised_onRuntime hs tame_fence
  | others w =>
    unfold act at h
    dsimp only at h
    split at h
    · cases h
      have hsub : Subsides s { s with stores := s.stores.apply w } := .of_eq rfl rfl fun h => h
      exact hs.still hsub rfl rfl rfl rfl hs.closing fun x hx => hsub.fits (hs.holder x hx)
    · cases h

/-! ### Runs -/

/-- A runtime starts in the turn that makes it, and in no other. -/
theorem act_subsides {a : Act} (h : s.act cfg a = some s') :
    Subsides s s' ∨ ∃ claim raises, s' = s.startRuntime claim raises := by
  have heq : ∀ {t : ShardSupervisor}, t.runtimes = s.runtimes → t.activeShards = s.activeShards →
      t.isRunning = s.isRunning → Subsides s t :=
    fun hr hs hrun => .of_eq hr hs fun h => hrun ▸ h
  cases a with
  | call c =>
    cases h
    refine .inl ?_
    cases c with
    | attemptAcquireShard shardId => exact heq rfl rfl rfl
    | shutdown =>
      unfold call
      dsimp only
      split
      · exact heq rfl rfl rfl
      · exact .of_eq rfl rfl fun h => by cases h
  | enter claimToken now =>
    unfold act at h
    dsimp only at h
    refine .inl ?_
    split at h
    · cases h
      unfold enterAcquire
      split <;> exact heq rfl rfl rfl
    · cases h
      exact heq rfl rfl rfl
    · cases h
  | serve =>
    refine .inl ?_
    unfold act serveHolder at h
    dsimp only at h
    split at h <;> cases h <;> exact heq rfl rfl rfl
  | resume outcome raises =>
    obtain ⟨x, hx, hresume⟩ := Option.bind_eq_some_iff.mp h
    unfold resumeHolder at hresume
    split at hresume
    · cases hresume
      exact .inl (subsides_withHolder _)
    · split at hresume
      · cases hresume
        exact .inl (subsides_withHolder _)
      · split at hresume
        · cases hresume
          exact .inl (subsides_withHolder _)
        · cases hresume
          exact .inr ⟨_, _, rfl⟩
    · cases hresume
      exact .inl (subsides_withHolder _)
    · cases hresume
      exact .inl (subsides_withHolder _)
    · cases hresume
      exact .inl (subsides_withHolder _)
    · split at hresume
      · cases hresume
        exact .inr ⟨_, _, rfl⟩
      · cases hresume
        exact .inl (subsides_withHolder _)
    · cases hresume
      exact .inl (subsides_withHolder _)
    · cases hresume
      exact .inl (subsides_withHolder _)
    · cases hresume
      exact .inl (subsides_withHolder _)
    · split at hresume
      · cases hresume
        have hcleared : Subsides s { s with heartbeatTasks := ∅ } := heq rfl rfl rfl
        exact .inl (hcleared.trans (subsides_stopRuntimes _))
      · cases hresume
    · cases hresume
      exact .inl ((subsides_onRuntime (tame_finishStop _)).trans (subsides_stopRuntimes _))
    · cases hresume
      exact .inl (subsides_withHolder _)
    · cases hresume
      exact .inl (subsides_handBack _)
    · cases hresume
      exact .inl (subsides_handBack _)
    · cases hresume
  | beat n b =>
    refine .inl ?_
    unfold act at h
    dsimp only at h
    split at h
    · rename_i r b' hr hb
      unfold beat at h
      split at h
      · split at h
        · cases h
          exact heq rfl rfl rfl
        · cases h
      · split at h
        · cases h
        · split at h
          · cases h
            exact heq rfl rfl rfl
          · cases h
            exact heq rfl rfl rfl
          · cases h
      · split at h
        · cases h
          exact heq rfl rfl rfl
        · cases h
      · split at h
        · split at h
          · cases h
          · split at h
            · cases h
              exact heq rfl rfl rfl
            · cases h
              exact subsides_cleanup n r
        · split at h
          · cases h
          · cases h
            exact subsides_cleanup n r
        · cases h
          exact (subsides_onRuntime (tame_finishStop _)).trans (.of_eq rfl rfl fun h => h)
        · cases h
          exact heq rfl rfl rfl
        · cases h
    · cases h
  | fenceInside n =>
    cases h
    exact .inl (subsides_onRuntime tame_fence)
  | others w =>
    refine .inl ?_
    unfold act at h
    dsimp only at h
    split at h
    · cases h
      exact heq rfl rfl rfl
    · cases h

/-- A turn that the condition allows. -/
def Turn (cfg : SupervisorConfig) (ok : ShardSupervisor → Act → Prop) (s s' : ShardSupervisor) : Prop :=
  ∃ a, ok s a ∧ s.act cfg a = some s'

theorem supervised_turns {ok : ShardSupervisor → Act → Prop} {stores : Stores}
    (h : Relation.ReflTransGen (Turn cfg ok) (started stores) s) : s.Supervised := by
  induction h with
  | refl => exact supervised_started stores
  | tail _ hturn ih =>
    obtain ⟨a, -, hact⟩ := hturn
    exact supervised_act ih hact

/-- Inside `shutdown`. -/
def Holder.Closes : Holder → Prop
  | .joining _ => True
  | .stopping _ _ _ => True
  | .handingBack _ _ _ => True
  | _ => False

/-- What a maintainer may rely on in a state of the supervisor and its next turns. -/
structure Lifecycle (cfg : SupervisorConfig) (s : ShardSupervisor) : Prop where
  /-- A runtime that runs is the installed one, so no shard has two. -/
  single : ∀ n r, s.Live n r → s.activeShards.lookup r.shardId = some n
  /-- Before `shutdown`, its heartbeat goes on. -/
  watched : s.isRunning = true → ∀ n r, s.Live n r →
    ∃ h, s.heartbeats n = some h ∧ Heartbeat.Watches h
  /-- A recorded claim is that of the installed runtime. -/
  recorded : ∀ k c, s.activeClaims.lookup k = some c →
    ∃ n r, s.activeShards.lookup k = some n ∧ s.runtimes n = some r ∧ r.claim = c
  /-- The runtime of a heartbeat that was refused does not run. -/
  refused : ∀ n b wasFenced, s.heartbeats n = some b → b.at = .stopping wasFenced → s.runs n = false
  /-- What does not run never runs again. -/
  forever : ∀ a s', s.act cfg a = some s' → ∀ n, (s.runtimes n).isSome → s.runs n = false →
    s'.runs n = false
  /-- Nothing runs when `shutdown` returns. -/
  closed : ∀ x outcome raises s', s.holder = some x → Holder.Closes x →
    s.act cfg (.resume outcome raises) = some s' → outcome ≠ .stopRaised → s'.holder = none →
    ∀ n r, ¬ s'.Live n r

theorem handBack_idle (hs : s.Supervised)
    (hidle : ∀ k n, s.activeShards.lookup k = some n → s.runs n = false) (claims : List ShardLeaseClaim)
    (n : ℕ) (r : ShardRuntime) : ¬ (s.handBack claims).Live n r := by
  intro hlive
  obtain ⟨r₀, hr₀, -⟩ := (subsides_handBack claims).live hlive
  have hstill := hidle _ n (hs.live n r₀ hr₀)
  rw [hr₀.runs] at hstill
  cases hstill

theorem stopRuntimes_idle (hs : s.Supervised) {rest : List ℕ}
    (hrest : ∀ k n, s.activeShards.lookup k = some n → s.runs n = true → n ∈ rest)
    (hfree : (s.stopRuntimes rest).holder = none) (n : ℕ) (r : ShardRuntime) :
    ¬ (s.stopRuntimes rest).Live n r := by
  cases rest with
  | nil =>
    refine handBack_idle hs (fun k m hm => ?_) _ n r
    by_contra hrun
    cases hrest k m hm (Bool.eq_true_of_not_eq_false hrun)
  | cons m rest => cases hfree

theorem closed_resume (hs : s.Supervised) {x : Holder} (hx : s.holder = some x)
    (hcloses : Holder.Closes x) {outcome : Outcome} {raises : Bool}
    (h : s.resumeHolder cfg raises x outcome = some s') (hraised : outcome ≠ .stopRaised)
    (hfree : s'.holder = none) (n : ℕ) (r : ShardRuntime) : ¬ s'.Live n r := by
  have hfits := hs.holder x hx
  cases x with
  | joining tasks =>
    cases outcome with
    | joined =>
      unfold resumeHolder at h
      dsimp only at h
      split at h
      · cases h
        have hcleared : ({ s with heartbeatTasks := ∅ } : ShardSupervisor).Supervised := by
          have hsub : Subsides s { s with heartbeatTasks := ∅ } := .of_eq rfl rfl fun h => h
          exact hs.still hsub rfl rfl rfl rfl hs.closing fun y hy => hsub.fits (hs.holder y hy)
        refine stopRuntimes_idle hcleared (fun k m hm _ => ?_) hfree n r
        exact List.mem_map.mpr ⟨⟨k, m⟩, AList.mem_lookup_iff.mp hm, rfl⟩
      · cases h
    | _ => cases h
  | stopping m wasFenced rest =>
    cases outcome with
    | stopped =>
      cases h
      have hsub := subsides_onRuntime (s := s) (n := m) (tame_finishStop wasFenced)
      exact stopRuntimes_idle (supervised_onRuntime hs (tame_finishStop wasFenced))
        (fun k i hi hrun => hfits.2 k i hi (hsub.runs hrun)) hfree n r
    | stopRaised => exact absurd rfl hraised
    | _ => cases h
  | handingBack claim reply rest =>
    have hback : s' = s.handBack rest := by
      cases outcome with
      | reply =>
        rcases reply with _ | _ | released
        · cases h
        · cases h
        · cases h
          rfl
      | unavailable =>
        rcases reply with _ | _ | released <;> cases h <;> rfl
      | _ => rcases reply with _ | _ | released <;> cases h
    exact hback ▸ handBack_idle hs hfits.2 rest n r
  | _ => exact hcloses.elim

/-- Some turns in order. -/
def turns (cfg : SupervisorConfig) (s : ShardSupervisor) (acts : List Act) : Option ShardSupervisor :=
  acts.foldlM (act cfg) s

theorem turns_reach {ok : ShardSupervisor → Act → Prop} {acts : List Act} (hok : ∀ a ∈ acts, ∀ s, ok s a)
    (h : s.turns cfg acts = some s') : Relation.ReflTransGen (Turn cfg ok) s s' := by
  induction acts generalizing s with
  | nil =>
    cases h
    exact .refl
  | cons a acts ih =>
    obtain ⟨t, hact, hrest⟩ := Option.bind_eq_some_iff.mp h
    rw [List.forall_mem_cons] at hok
    exact .head ⟨a, hok.1 s, hact⟩ (ih hok.2 hrest)

def thirtySeconds : SupervisorConfig := { workerId := 1, ttlMs := 30000 }

/-- Shard 0 is acquired and its lease renewed once; then it is found expired. -/
def expiry : List ShardSupervisor.Act :=
  [.call (.attemptAcquireShard 0), .enter 7 0, .serve, .resume .reply false,
    .resume (.registered true) false, .serve, .resume .reply false, .beat 0 .wake, .beat 0 .wake,
    .beat 0 .serve, .beat 0 (.resume .reply), .beat 0 .wake, .others (.redisTick 30000),
    .beat 0 .serve, .beat 0 (.resume .reply)]

end ShardSupervisor
end Quantive.WsSharding
