/-
# ARP

Two small tables: `arpTable`, the addresses that are known, and `pending`, the requests that are not
answered, with `pendingEntries` to count them.  `arpStep` is what a packet, a `resolve` or a tick of
`driveArp2` does to them.

`Consistent` is kept by every event, and in a consistent state nothing is written outside of
`pending`, since a counter below `ARP_MAX_PENDING` means a free slot.  `arpTables_consistent` says so for
every run from `init`, and where a new address comes from.
-/
import SdcBoot.Lib.Run
import Mathlib.Data.List.Nodup

namespace SdcBoot.Mtcp

open Lib List

/-! ## 1. The tables -/

/-- The constants of the application: indices fit in an `int8_t`, the counter in a `uint8_t`, and
`attempts` comes from 1 to `ARP_RETRIES` in an `int8_t`. -/
structure ArpConfig where
  maxEntries : Nat
  maxPending : Nat
  retries : Nat
  entriesPos : 0 < maxEntries
  entriesIndex : maxEntries ≤ 127
  pendingCount : maxPending ≤ 255
  retriesPos : 0 < retries
  retriesCount : retries ≤ 127

-- an IP address and an Ethernet address
variable {I E : Type} [DecidableEq I]

/-- Rec_t -/
structure ArpRec (I E : Type) where
  ethAddr : E
  ipAddr : I
  updated : Nat

/-- Pending_t; -1 attempts mark a slot that is free. -/
structure ArpPending (I : Type) where
  target : I
  start : Nat
  attempts : Int

/-- ArpHeader, for the fields that are read. -/
structure ArpHeader (I E : Type) where
  operation : UInt16
  senderHa : E
  senderIp : I
  targetHa : E
  targetIp : I

/-- The tables, and the targets of the requests that were sent.  `arpTable` is the part of it in use,
so that `entries` is its length. -/
structure ArpTables (I E : Type) where
  arpTable : List (ArpRec I E)
  pending : List (ArpPending I)
  pendingEntries : UInt8
  requests : List I

def ArpTables.entries (t : ArpTables I E) : Nat := t.arpTable.length

def ArpPending.inUse (p : ArpPending I) : Bool := p.attempts != -1

/-- findEth -/
def findEth (table : List (ArpRec I E)) (target : I) : Option Nat :=
  table.findIdx? fun r => decide (r.ipAddr = target)

/-- updateEntry -/
def updateEntry (t : ArpTables I E) (index : Nat) (newEthAddr : E) (now : Nat) : ArpTables I E :=
  { t with arpTable := t.arpTable.modify index fun r => { r with ethAddr := newEthAddr, updated := now } }

/-- The loop that looks for the oldest entry. -/
def lowestTimeIndex (table : List (ArpRec I E)) : Nat :=
  (List.range table.length).foldl (fun low i =>
    if (table[i]?.map ArpRec.updated).getD 0 < (table[low]?.map ArpRec.updated).getD 0 then i
    else low) 0

/-- updateOrAddCache -/
def updateOrAddCache (cfg : ArpConfig) (t : ArpTables I E) (newEthAddr : E) (newIpAddr : I)
    (now : Nat) : ArpTables I E :=
  match findEth t.arpTable newIpAddr with
  | some rc => updateEntry t rc newEthAddr now
  | none =>
    if t.entries < cfg.maxEntries then
      { t with arpTable := t.arpTable ++ [⟨newEthAddr, newIpAddr, now⟩] }
    else
      { t with arpTable := t.arpTable.set (lowestTimeIndex t.arpTable) ⟨newEthAddr, newIpAddr, now⟩ }

/-! ## 2. The requests -/

/-- The first pending request for an address gives its slot back; `none` if there is none. -/
def satisfied (ip : I) : List (ArpPending I) → Option (List (ArpPending I))
  | [] => none
  | p :: ps =>
    if p.inUse ∧ ip = p.target then some ({ p with attempts := -1 } :: ps)
    else (satisfied ip ps).map (p :: ·)

/-- The first free slot is taken; `none` where the loop runs to the end, and the write would be
behind the table. -/
def taken (new : ArpPending I) : List (ArpPending I) → Option (List (ArpPending I))
  | [] => none
  | p :: ps => if p.attempts = -1 then some (new :: ps) else (taken new ps).map (p :: ·)

/-- sendArpRequest; false if it writes outside of `pending`. -/
def sendArpRequest (cfg : ArpConfig) (t : ArpTables I E) (target : I) (now : Nat) :
    Bool × ArpTables I E :=
  if t.pending.any fun p => p.inUse && decide (p.target = target) then (true, t)
  else if t.pendingEntries.toNat = cfg.maxPending then (true, t)
  else
    match taken ⟨target, now, 1⟩ t.pending with
    | none => (false, t)
    | some pending =>
      (true, { t with
        pending := pending
        pendingEntries := t.pendingEntries + 1
        requests := t.requests ++ [target] })

/-- resolve -/
def resolve (cfg : ArpConfig) (t : ArpTables I E) (target : I) (now : Nat) :
    Bool × ArpTables I E :=
  match findEth t.arpTable target with
  | some _ => (true, t)
  | none => sendArpRequest cfg t target now

/-- What `driveArp2` does with a slot. -/
def driven (cfg : ArpConfig) (now : Nat) (late : Nat → Bool) (p : ArpPending I) : ArpPending I :=
  if p.inUse then
    if p.attempts = cfg.retries then { p with attempts := -1 }
    else if late p.start then { p with start := now, attempts := p.attempts + 1 }
    else p
  else p

/-- A request that is given up. -/
def givenUp (cfg : ArpConfig) (p : ArpPending I) : Bool :=
  p.inUse && decide (p.attempts = cfg.retries)

/-- A request that is sent again. -/
def sentAgain (cfg : ArpConfig) (late : Nat → Bool) (p : ArpPending I) : Bool :=
  p.inUse && !decide (p.attempts = cfg.retries) && late p.start

/-- driveArp2; `late` says of a start time that `ARP_TIMEOUT` is over. -/
def driveArp2 (cfg : ArpConfig) (t : ArpTables I E) (now : Nat) (late : Nat → Bool) :
    ArpTables I E :=
  { t with
    pending := t.pending.map (driven cfg now late)
    pendingEntries := t.pendingEntries - UInt8.ofNat (t.pending.countP (givenUp cfg))
    requests := t.requests ++ (t.pending.filter (sentAgain cfg late)).map ArpPending.target }

/-! ## 3. Packets -/

/-- The cache is updated, where there is an entry. -/
def refresh (t : ArpTables I E) (ip : I) (ha : E) (now : Nat) : ArpTables I E :=
  match findEth t.arpTable ip with
  | some rc => updateEntry t rc ha now
  | none => t

/-- processArp -/
def processArp (cfg : ArpConfig) (myIpAddr : I) (t : ArpTables I E) (ah : ArpHeader I E)
    (now : Nat) : ArpTables I E :=
  if ah.operation = 1 then
    if ah.targetIp = myIpAddr then updateOrAddCache cfg t ah.senderHa ah.senderIp now else t
  else if ah.operation = 2 then
    match satisfied ah.senderIp t.pending with
    | some pending =>
      { updateOrAddCache cfg t ah.senderHa ah.senderIp now with
        pending := pending
        pendingEntries := t.pendingEntries - 1 }
    | none => refresh (refresh t ah.targetIp ah.targetHa now) ah.senderIp ah.senderHa now
  else t

inductive ArpEvent (I E : Type) where
  | packet (ah : ArpHeader I E) (now : Nat)
  | resolve (target : I) (now : Nat)
  | tick (now : Nat) (late : Nat → Bool)

/-- One event; the answer is false if it writes outside of `pending`. -/
def arpStep (cfg : ArpConfig) (myIpAddr : I) (t : ArpTables I E) : ArpEvent I E → Bool × ArpTables I E
  | .packet ah now => (true, processArp cfg myIpAddr t ah now)
  | .resolve target now => resolve cfg t target now
  | .tick now late => (true, driveArp2 cfg t now late)

/-- `init`; the slots of `pending` hold anything else, and on a SLIP line the gateway is known. -/
def arpInit (cfg : ArpConfig) (gateway : Option (ArpRec I E)) (slots : Fin cfg.maxPending → I) :
    ArpTables I E where
  arpTable := gateway.toList
  pending := List.ofFn fun i => ⟨slots i, 0, -1⟩
  pendingEntries := 0
  requests := []

/-! ## 4. The cache -/

variable {ip : I} {cfg : ArpConfig} {t : ArpTables I E} {ps ps' : List (ArpPending I)}
  {new : ArpPending I}

theorem findEth_eq_none {table : List (ArpRec I E)} (h : findEth table ip = none) :
    ip ∉ table.map ArpRec.ipAddr := by
  intro hmem
  obtain ⟨r, hr, rfl⟩ := mem_map.mp hmem
  simpa using findIdx?_eq_none_iff.mp h r hr

omit [DecidableEq I] in
@[simp] theorem updateEntry_ips (t : ArpTables I E) (index : Nat) (ha : E) (now : Nat) :
    (updateEntry t index ha now).arpTable.map ArpRec.ipAddr = t.arpTable.map ArpRec.ipAddr := by
  rw [updateEntry]
  generalize t.arpTable = table
  induction table generalizing index with
  | nil => simp
  | cons r table ih =>
    cases index with
    | zero => simp
    | succ index => simpa using ih index

/-- The addresses of the cache, after a new one was put in. -/
structure Cached (cfg : ArpConfig) (t t' : ArpTables I E) (ip : I) : Prop where
  ips : (t.arpTable.map ArpRec.ipAddr).Nodup → (t'.arpTable.map ArpRec.ipAddr).Nodup
  entries : t.entries ≤ cfg.maxEntries → t'.entries ≤ cfg.maxEntries
  mem : ∀ a ∈ t'.arpTable.map ArpRec.ipAddr, a ∈ t.arpTable.map ArpRec.ipAddr ∨ a = ip
  pending : t'.pending = t.pending
  pendingEntries : t'.pendingEntries = t.pendingEntries

omit [DecidableEq I] in
theorem Cached.of_ips {t' : ArpTables I E} (ip : I)
    (h : t'.arpTable.map ArpRec.ipAddr = t.arpTable.map ArpRec.ipAddr)
    (hpending : t'.pending = t.pending) (hcount : t'.pendingEntries = t.pendingEntries) :
    Cached cfg t t' ip where
  ips := by rw [h]; exact id
  entries := by
    have hlen := congrArg List.length h
    rw [length_map, length_map] at hlen
    rw [ArpTables.entries, ArpTables.entries, hlen]
    exact id
  mem := fun a ha => .inl (h ▸ ha)
  pending := hpending
  pendingEntries := hcount

theorem updateOrAddCache_cached (cfg : ArpConfig) (t : ArpTables I E) (ha : E) (ip : I) (now : Nat) :
    Cached cfg t (updateOrAddCache cfg t ha ip now) ip := by
  unfold updateOrAddCache
  split
  · exact .of_ips ip (updateEntry_ips t _ ha now) rfl rfl
  · rename_i hfind
    have hnew := findEth_eq_none hfind
    split
    · rename_i hroom
      refine ⟨fun h => ?_, fun _ => ?_, fun a ha => ?_, rfl, rfl⟩
      · rw [map_append, nodup_append]
        refine ⟨h, by simp, fun a hold b hb => ?_⟩
        obtain rfl : b = ip := by simpa using hb
        exact fun hab => hnew (hab ▸ hold)
      · have hlt : t.arpTable.length < cfg.maxEntries := hroom
        simpa [ArpTables.entries] using Nat.succ_le_of_lt hlt
      · simpa [ArpTables.entries] using ha
    · refine ⟨fun h => ?_, fun h => ?_, fun a ha => ?_, rfl, rfl⟩
      · rw [map_set]
        exact h.set hnew
      · simpa [ArpTables.entries] using h
      · rw [map_set] at ha
        exact mem_or_eq_of_mem_set ha

theorem refresh_ips (t : ArpTables I E) (ip : I) (ha : E) (now : Nat) :
    (refresh t ip ha now).arpTable.map ArpRec.ipAddr = t.arpTable.map ArpRec.ipAddr := by
  unfold refresh
  split
  · exact updateEntry_ips t _ ha now
  · rfl

theorem refresh_pending (t : ArpTables I E) (ip : I) (ha : E) (now : Nat) :
    (refresh t ip ha now).pending = t.pending ∧
      (refresh t ip ha now).pendingEntries = t.pendingEntries := by
  unfold refresh
  split <;> exact ⟨rfl, rfl⟩

/-! ## 5. The slots -/

/-- The targets that are pending. -/
def targets (ps : List (ArpPending I)) : List I := (ps.filter ArpPending.inUse).map ArpPending.target

/-- `attempts` is -1, or from 1 to `ARP_RETRIES`. -/
def Counts (cfg : ArpConfig) (ps : List (ArpPending I)) : Prop :=
  ∀ p ∈ ps, p.attempts = -1 ∨ 1 ≤ p.attempts ∧ p.attempts ≤ cfg.retries

theorem satisfied_some (cfg : ArpConfig) (h : satisfied ip ps = some ps') :
    ps'.length = ps.length ∧ ps.countP ArpPending.inUse = ps'.countP ArpPending.inUse + 1 ∧
      (targets ps').Sublist (targets ps) ∧ (∃ p ∈ ps, p.inUse = true ∧ p.target = ip) ∧
      (Counts cfg ps → Counts cfg ps') := by
  induction ps generalizing ps' with
  | nil => cases h
  | cons p ps ih =>
    unfold satisfied at h
    split at h
    · rename_i hp
      cases h
      have hfree : ({ p with attempts := -1 } : ArpPending I).inUse = false := rfl
      refine ⟨rfl, ?_, ?_, ⟨p, mem_cons_self, hp.1, hp.2.symm⟩, fun hc q hq => ?_⟩
      · simp [hp.1, hfree]
      · simp [targets, hp.1, hfree]
      · rcases mem_cons.mp hq with rfl | hq
        · exact .inl rfl
        · exact hc q (.tail _ hq)
    · obtain ⟨qs, hqs, rfl⟩ := Option.map_eq_some_iff.mp h
      obtain ⟨hlen, hcount, hsub, ⟨q, hq, hinUse, htarget⟩, hcounts⟩ := ih hqs
      refine ⟨by simp [hlen], ?_, ?_, ⟨q, mem_cons_of_mem _ hq, hinUse, htarget⟩,
        fun hc r hr => ?_⟩
      · simp only [countP_cons]
        omega
      · cases huse : p.inUse with
        | true => simpa [targets, huse] using hsub
        | false => simpa [targets, huse] using hsub
      · rcases mem_cons.mp hr with rfl | hr
        · exact hc r mem_cons_self
        · exact hcounts (fun x hx => hc x (.tail _ hx)) r hr

omit [DecidableEq I] in
theorem taken_none (h : taken new ps = none) : ps.countP ArpPending.inUse = ps.length := by
  induction ps with
  | nil => rfl
  | cons p ps ih =>
    unfold taken at h
    split at h
    · cases h
    · rename_i hp
      rw [countP_cons_of_pos (by simpa [ArpPending.inUse] using hp),
        ih (Option.map_eq_none_iff.mp h), length_cons]

omit [DecidableEq I] in
theorem taken_some (cfg : ArpConfig) (hnew : new.attempts = 1) (h : taken new ps = some ps') :
    ps'.length = ps.length ∧ ps'.countP ArpPending.inUse = ps.countP ArpPending.inUse + 1 ∧
      (targets ps').Perm (new.target :: targets ps) ∧ (Counts cfg ps → Counts cfg ps') := by
  have huse : new.inUse = true := by simp [ArpPending.inUse, hnew]
  induction ps generalizing ps' with
  | nil => cases h
  | cons p ps ih =>
    unfold taken at h
    split at h
    · rename_i hp
      have hfree : p.inUse = false := by simp [ArpPending.inUse, hp]
      cases h
      refine ⟨rfl, ?_, ?_, fun hc q hq => ?_⟩
      · simp [huse, hfree]
      · simp [targets, huse, hfree]
      · rcases mem_cons.mp hq with rfl | hq
        · exact .inr ⟨by omega, by have := cfg.retriesPos; omega⟩
        · exact hc q (.tail _ hq)
    · rename_i hp
      have hused : p.inUse = true := by simpa [ArpPending.inUse] using hp
      obtain ⟨qs, hqs, rfl⟩ := Option.map_eq_some_iff.mp h
      obtain ⟨hlen, hcount, hperm, hcounts⟩ := ih hqs
      refine ⟨by simp [hlen], ?_, ?_, fun hc r hr => ?_⟩
      · simp only [countP_cons, hcount]
        omega
      · have hcons : ∀ rs : List (ArpPending I), targets (p :: rs) = p.target :: targets rs := by
          simp [targets, hused]
        rw [hcons, hcons]
        exact (hperm.cons p.target).trans (List.Perm.swap _ _ _)
      · rcases mem_cons.mp hr with rfl | hr
        · exact hc r mem_cons_self
        · exact hcounts (fun x hx => hc x (.tail _ hx)) r hr

omit [DecidableEq I] in
/-- A tick: what is given up is not in use any more, and everything else stays. -/
theorem driven_spec (cfg : ArpConfig) (now : Nat) (late : Nat → Bool) (hc : Counts cfg ps) :
    ps.countP ArpPending.inUse =
      (ps.map (driven cfg now late)).countP ArpPending.inUse + ps.countP (givenUp cfg) ∧
      (targets (ps.map (driven cfg now late))).Sublist (targets ps) ∧
      Counts cfg (ps.map (driven cfg now late)) := by
  induction ps with
  | nil => exact ⟨rfl, List.Sublist.refl _, hc⟩
  | cons p ps ih =>
    obtain ⟨hcount, hsub, hcounts⟩ := ih fun q hq => hc q (.tail _ hq)
    have hp := hc p mem_cons_self
    have hone : (driven cfg now late p).target = p.target ∧
        ((driven cfg now late p).attempts = -1 ∨
          1 ≤ (driven cfg now late p).attempts ∧ (driven cfg now late p).attempts ≤ cfg.retries) ∧
        ((driven cfg now late p).inUse = (p.inUse && !givenUp cfg p)) := by
      unfold driven givenUp
      cases huse : p.inUse with
      | false => simp [hp, huse]
      | true =>
        have hne : p.attempts ≠ -1 := by simpa [ArpPending.inUse] using huse
        by_cases hlast : p.attempts = cfg.retries
        · simp [hlast, ArpPending.inUse]
        · cases hlate : late p.start with
          | false => simp [hlast, hp, huse]
          | true =>
            have hrange := hp.resolve_left hne
            simp only [if_pos, if_neg hlast, ArpPending.inUse, decide_eq_false hlast, Bool.and_false,
              Bool.not_false, Bool.and_true, true_and, bne_iff_ne, ne_eq]
            exact ⟨.inr ⟨by omega, by omega⟩, by omega⟩
    obtain ⟨htarget, hattempts, hinUse⟩ := hone
    refine ⟨?_, ?_, fun q hq => ?_⟩
    · rw [map_cons, countP_cons, countP_cons, countP_cons, hinUse, hcount]
      cases huse : p.inUse with
      | false => simp [givenUp, huse]
      | true => cases hup : givenUp cfg p <;> simp <;> omega
    · rw [map_cons]
      cases huse : p.inUse with
      | false => simpa [targets, hinUse, huse] using hsub
      | true =>
        cases hup : givenUp cfg p with
        | true => simpa [targets, hinUse, huse, hup] using hsub.cons p.target
        | false => simpa [targets, hinUse, huse, hup, htarget] using hsub
    · rcases mem_cons.mp hq with rfl | hq
      · exact hattempts
      · exact hcounts q hq

/-! ## 6. The invariant -/

/-- No address twice, no target pending twice, and a counter that counts. -/
structure Consistent (cfg : ArpConfig) (t : ArpTables I E) : Prop where
  ips : (t.arpTable.map ArpRec.ipAddr).Nodup
  entries : t.entries ≤ cfg.maxEntries
  slots : t.pending.length = cfg.maxPending
  count : t.pendingEntries.toNat = t.pending.countP ArpPending.inUse
  targets : (targets t.pending).Nodup
  attempts : Counts cfg t.pending

/-- An address comes into the cache from a request that was addressed to this host, or from a reply
to one of its own. -/
def Learned (myIpAddr : I) (t : ArpTables I E) (ev : ArpEvent I E) (ip : I) : Prop :=
  ∃ ah now, ev = .packet ah now ∧ ip = ah.senderIp ∧
    (ah.operation = 1 ∧ ah.targetIp = myIpAddr ∨
      ah.operation = 2 ∧ ∃ p ∈ t.pending, p.inUse = true ∧ p.target = ah.senderIp)

/-- What an event does: it writes inside of `pending`, and what is new in the cache was learned. -/
structure ArpKept (cfg : ArpConfig) (myIpAddr : I) (t : ArpTables I E) (ev : ArpEvent I E)
    (r : Bool × ArpTables I E) : Prop where
  inside : r.1 = true
  consistent : Consistent cfg r.2
  learned : ∀ ip ∈ r.2.arpTable.map ArpRec.ipAddr,
    ip ∈ t.arpTable.map ArpRec.ipAddr ∨ Learned myIpAddr t ev ip

section

variable {cfg : ArpConfig} {myIpAddr : I} {t t' : ArpTables I E}

variable {ip : I}

omit [DecidableEq I] in
/-- Only the cache has changed. -/
theorem Consistent.cached (h : Consistent cfg t) (hc : Cached cfg t t' ip) :
    Consistent cfg t' where
  ips := hc.ips h.ips
  entries := hc.entries h.entries
  slots := hc.pending ▸ h.slots
  count := by
    rw [hc.pending, hc.pendingEntries]
    exact h.count
  targets := hc.pending ▸ h.targets
  attempts := hc.pending ▸ h.attempts

omit [DecidableEq I] in
/-- The counter fits in its byte. -/
theorem Consistent.count_lt (h : Consistent cfg t) : t.pending.countP ArpPending.inUse < 256 := by
  rw [← h.count]
  exact t.pendingEntries.toNat_lt

theorem Consistent.satisfied (h : Consistent cfg t) {ps : List (ArpPending I)}
    (hps : satisfied ip t.pending = some ps) :
    Consistent cfg { t with pending := ps, pendingEntries := t.pendingEntries - 1 } := by
  obtain ⟨hlen, hcount, hsub, -, hcounts⟩ := satisfied_some cfg hps
  refine ⟨h.ips, h.entries, hlen.trans h.slots, ?_, h.targets.sublist hsub, hcounts h.attempts⟩
  have hold := h.count
  have hlt := h.count_lt
  rw [hcount] at hold hlt
  rw [UInt8.toNat_sub_of_le _ _ (UInt8.le_iff_toNat_le.mpr (by rw [hold]; exact Nat.le_add_left _ _)), hold]
  rfl

omit [DecidableEq I] in
theorem Consistent.driven (h : Consistent cfg t) (now : Nat) (late : Nat → Bool) :
    Consistent cfg (driveArp2 cfg t now late) := by
  obtain ⟨hcount, hsub, hcounts⟩ := driven_spec cfg now late h.attempts
  refine ⟨h.ips, h.entries, by simpa [driveArp2] using h.slots, ?_, h.targets.sublist hsub, hcounts⟩
  have hold := h.count
  have hlt := h.count_lt
  have hup : t.pending.countP (givenUp cfg) < 256 := by omega
  have hto : (UInt8.ofNat (t.pending.countP (givenUp cfg))).toNat =
      t.pending.countP (givenUp cfg) := by
    rw [UInt8.toNat_ofNat']
    exact Nat.mod_eq_of_lt hup
  simp only [driveArp2]
  rw [UInt8.toNat_sub_of_le _ _ (UInt8.le_iff_toNat_le.mpr (by rw [hto, hold, hcount]; omega)), hto,
    hold, hcount]
  omega

/-- A request is put in a free slot, or nothing is done. -/
theorem Consistent.sendArpRequest (h : Consistent cfg t) (target : I) (now : Nat) :
    (sendArpRequest cfg t target now).1 = true ∧
      Consistent cfg (sendArpRequest cfg t target now).2 ∧
      (sendArpRequest cfg t target now).2.arpTable = t.arpTable := by
  unfold Mtcp.sendArpRequest
  split
  · exact ⟨rfl, h, rfl⟩
  · rename_i hany
    split
    · exact ⟨rfl, h, rfl⟩
    · rename_i hroom
      split
      · -- every slot is in use, and then the counter says so
        rename_i hnone
        refine absurd ?_ hroom
        rw [h.count, taken_none hnone, h.slots]
      · rename_i ps hps
        obtain ⟨hlen, hcount, hperm, hcounts⟩ := taken_some cfg rfl hps
        have hnew : target ∉ Mtcp.targets t.pending := by
          intro hmem
          obtain ⟨p, hp, rfl⟩ := mem_map.mp hmem
          obtain ⟨hp, huse⟩ := mem_filter.mp hp
          exact hany (any_eq_true.mpr ⟨p, hp, by simp [huse]⟩)
        have hle : t.pending.countP ArpPending.inUse < cfg.maxPending := by
          have := countP_le_length (p := ArpPending.inUse) (l := t.pending)
          rw [h.count] at hroom
          have := h.slots
          omega
        refine ⟨rfl, ⟨h.ips, h.entries, hlen.trans h.slots, ?_,
          hperm.nodup_iff.mpr (nodup_cons.mpr ⟨hnew, h.targets⟩), hcounts h.attempts⟩, rfl⟩
        have hsmall := cfg.pendingCount
        have hold := h.count
        rw [hcount, UInt8.toNat_add, hold]
        exact Nat.mod_eq_of_lt (by change _ + 1 < 256; omega)

end

theorem Consistent.step {myIpAddr : I} (h : Consistent cfg t)
    (ev : ArpEvent I E) : ArpKept cfg myIpAddr t ev (arpStep cfg myIpAddr t ev) := by
  cases ev with
  | tick now late => exact ⟨rfl, h.driven now late, fun ip hip => .inl hip⟩
  | resolve target now =>
    simp only [arpStep, resolve]
    split
    · exact ⟨rfl, h, fun ip hip => .inl hip⟩
    · obtain ⟨hinside, hcons, htable⟩ := h.sendArpRequest target now
      exact ⟨hinside, hcons, fun ip hip => .inl (htable ▸ hip)⟩
  | packet ah now =>
    simp only [arpStep, processArp]
    split
    · rename_i hop
      split
      · rename_i hmine
        have hc := updateOrAddCache_cached cfg t ah.senderHa ah.senderIp now
        refine ⟨rfl, h.cached hc, fun ip hip => (hc.mem ip hip).imp_right fun hnew => ?_⟩
        exact ⟨ah, now, rfl, hnew, .inl ⟨hop, hmine⟩⟩
      · exact ⟨rfl, h, fun ip hip => .inl hip⟩
    · split
      · rename_i hop
        split
        · rename_i ps hps
          have hc := updateOrAddCache_cached cfg t ah.senderHa ah.senderIp now
          obtain ⟨-, -, -, hask, -⟩ := satisfied_some cfg hps
          refine ⟨rfl, ?_, fun ip hip => (hc.mem ip hip).imp_right fun hnew => ?_⟩
          · have hcons := (h.cached hc).satisfied (hc.pending ▸ hps)
            rw [hc.pendingEntries] at hcons
            exact hcons
          · exact ⟨ah, now, rfl, hnew, .inr ⟨hop, hask⟩⟩
        · have hips := (refresh_ips (refresh t ah.targetIp ah.targetHa now) ah.senderIp ah.senderHa
            now).trans (refresh_ips t ah.targetIp ah.targetHa now)
          have hsecond := refresh_pending (refresh t ah.targetIp ah.targetHa now) ah.senderIp
            ah.senderHa now
          have hfirst := refresh_pending t ah.targetIp ah.targetHa now
          refine ⟨rfl, h.cached (.of_ips ah.senderIp hips (hsecond.1.trans hfirst.1)
            (hsecond.2.trans hfirst.2)), fun ip hip => .inl (hips ▸ hip)⟩
      · exact ⟨rfl, h, fun ip hip => .inl hip⟩

omit [DecidableEq I] in
theorem arpInit_consistent (cfg : ArpConfig) (gateway : Option (ArpRec I E))
    (slots : Fin cfg.maxPending → I) : Consistent cfg (arpInit cfg gateway slots) := by
  have hfree : ∀ p ∈ (arpInit cfg gateway slots).pending, p.inUse = false ∧ p.attempts = -1 := by
    intro p hp
    obtain ⟨i, rfl⟩ := mem_ofFn.mp hp
    exact ⟨rfl, rfl⟩
  have hnone : (arpInit cfg gateway slots).pending.countP ArpPending.inUse = 0 :=
    countP_eq_zero.mpr fun p hp => by simp [(hfree p hp).1]
  refine ⟨?_, ?_, by simp [arpInit], ?_, ?_, fun p hp => .inl (hfree p hp).2⟩
  · cases gateway <;> simp [arpInit]
  · have := cfg.entriesPos
    cases gateway <;> simp [arpInit, ArpTables.entries]
    omega
  · rw [hnone]
    rfl
  · have hnil : targets (arpInit cfg gateway slots).pending = [] := by
      simp only [targets, map_eq_nil_iff, filter_eq_nil_iff]
      exact fun p hp => by simp [(hfree p hp).1]
    rw [hnil]
    exact nodup_nil

/-- **The tables stay consistent** in every run from `init`, each event writes inside of `pending`,
and a new address in the cache was learned. -/
theorem arpTables_consistent (cfg : ArpConfig) (myIpAddr : I) (gateway : Option (ArpRec I E))
    (slots : Fin cfg.maxPending → I) (events : List (ArpEvent I E)) :
    Consistent cfg (run (arpStep cfg myIpAddr) (arpInit cfg gateway slots) events) ∧
      Along (arpStep cfg myIpAddr) (ArpKept cfg myIpAddr) (arpInit cfg gateway slots) events := by
  have hinit := arpInit_consistent cfg gateway slots
  have hok : Guarded (arpStep cfg myIpAddr) (fun _ _ => True) (arpInit cfg gateway slots) events :=
    guarded_of_forall (fun _ _ => trivial) _ _
  exact ⟨Guarded.run_invariant (I := Consistent cfg) (fun _ _ h _ => (h.step _).consistent) events _
    hinit hok, Along.of_invariant (I := Consistent cfg) (fun _ _ h _ => (h.step _).consistent)
      (fun _ _ h _ => h.step _) events _ hinit hok⟩

end SdcBoot.Mtcp
