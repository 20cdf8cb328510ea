import Vwarp.Device.AllowedIPs
import Vwarp.Lib.Simulation
import Vwarp.Netip

/-!
# The allowed-IPs table and what it is for

`AllowedIPs` keeps one trie for each address family. `Insert` files a prefix in the
trie of its address's family and `Lookup` asks the trie the address's length picks;
each panics on any other address. The lock around them is not modelled: every call
runs alone.

What the table is for (`Routes`): each family's prefixes, each routed to the peer
inserted for it last, and a lookup that answers the peer of the longest prefix
holding the address. From the empty table, the table gives every run of calls the
answers `Routes` gives (`table_refines_routes`), as long as every inserted prefix is
valid, as `netip.ParsePrefix` and `netip.PrefixFrom` make them; so `Lookup` answers a
peer exactly for the longest inserted prefix that holds the address
(`lookup_longest_prefix`).
-/

namespace AllowedIPs

open BitString PrefixMatch Simulation Netip

universe u

variable {α : Type u}

/-- `AllowedIPs`, without its lock. -/
structure Table (α : Type u) where
  ipv4 : Trie α
  ipv6 : Trie α

/-- The zero value: both tries empty. -/
def Table.empty : Table α := ⟨.nil, .nil⟩

/-- `uint8(prefix.Bits())`. -/
def prefixCidr (pfx : Prefix) : Nat := (pfx.bits % 256).toNat

/-- `Insert`; the `panic` is the error. -/
def Table.insert (table : Table α) (pfx : Prefix) (peer : α) : Except String (Table α) :=
  if pfx.ip.is6 then
    .ok { table with ipv6 := AllowedIPs.insert .v6 pfx.ip.as16 (prefixCidr pfx) peer table.ipv6 }
  else if pfx.ip.is4 then
    .ok { table with ipv4 := AllowedIPs.insert .v4 pfx.ip.as4 (prefixCidr pfx) peer table.ipv4 }
  else .error "inserting unknown address type"

/-- `Lookup`; the `panic` is the error. -/
def Table.lookup (table : Table α) (ip : List UInt8) : Except String (Option α) :=
  if ip.length = 16 then .ok (AllowedIPs.lookup .v6 ip table.ipv6 none)
  else if ip.length = 4 then .ok (AllowedIPs.lookup .v4 ip table.ipv4 none)
  else .error "looking up unknown address type"

/-- A call on the table. -/
inductive Call (α : Type u)
  | insert (pfx : Prefix) (peer : α)
  | lookup (ip : List UInt8)

/-- One call and its answer: `Insert` answers nothing, and a call that panics leaves
the table as it was. -/
def Table.step (table : Table α) : Call α → Except String (Option α) × Table α
  | .insert pfx peer =>
    match table.insert pfx peer with
    | .ok table' => (.ok none, table')
    | .error e => (.error e, table)
  | .lookup ip => (table.lookup ip, table)

/-- A prefix as `ParsePrefix` and `PrefixFrom` make it: valid, and no longer than
its address. -/
def Call.Valid : Call α → Prop
  | .insert pfx _ => pfx.isValid = true ∧ pfx.bits ≤ pfx.ip.bitLen
  | .lookup _ => True

instance Call.decValid : (c : Call α) → Decidable c.Valid
  | .insert pfx _ => inferInstanceAs (Decidable (pfx.isValid = true ∧ pfx.bits ≤ pfx.ip.bitLen))
  | .lookup _ => inferInstanceAs (Decidable True)

/-! ## What the table is for -/

/-- Each family's prefixes, as lists of bits, and the peer each routes to. -/
abbrev Routes (α : Type u) : Type u := Family → List Bool → Option α

/-- No prefix routes anywhere. -/
def Routes.empty : Routes α := fun _ _ => none

/-- The prefix of length `cidr` of `ip` now routes to `peer`. -/
def Routes.route (r : Routes α) (fam : Family) (ip : List UInt8) (cidr : Nat) (peer : α) : Routes α :=
  Function.update r fam (Function.update (r fam) (prefixBits ip cidr) (some peer))

/-- The peer of the longest prefix holding `ip`. -/
def Routes.find (r : Routes α) (fam : Family) (ip : List UInt8) : Option α :=
  lpm (r fam) [] (prefixBits ip (8 * fam.len))

/-- The calls on `Routes`: the same addresses panic, an insert routes its prefix, a
lookup finds the longest prefix. -/
def Routes.step (r : Routes α) : Call α → Except String (Option α) × Routes α
  | .insert pfx peer =>
    if pfx.ip.is6 then (.ok none, r.route .v6 pfx.ip.as16 (prefixCidr pfx) peer)
    else if pfx.ip.is4 then (.ok none, r.route .v4 pfx.ip.as4 (prefixCidr pfx) peer)
    else (.error "inserting unknown address type", r)
  | .lookup ip =>
    if ip.length = 16 then (.ok (r.find .v6 ip), r)
    else if ip.length = 4 then (.ok (r.find .v4 ip), r)
    else (.error "looking up unknown address type", r)

/-- The table holds the routes: both tries have the shape `insert` keeps, and hold
the routes of their family. -/
structure Tracks (table : Table α) (r : Routes α) : Prop where
  wf4 : WF .v4 [] table.ipv4
  wf6 : WF .v6 [] table.ipv6
  view4 : table.ipv4.view = r .v4
  view6 : table.ipv6.view = r .v6

theorem tracks_empty : Tracks (Table.empty : Table α) Routes.empty :=
  ⟨.nil _, .nil _, rfl, rfl⟩

theorem prefixCidr_le {pfx : Prefix} (hv : pfx.isValid = true) (hb : pfx.bits ≤ pfx.ip.bitLen) :
    prefixCidr pfx ≤ pfx.ip.bitLen := by
  simp only [Prefix.isValid, decide_eq_true_eq] at hv
  simp only [Prefix.bits] at hb
  unfold prefixCidr Prefix.bits
  omega

/-- A lookup in a tracking trie finds what `Routes` finds. -/
theorem lookup_tracks {fam : Family} {t : Trie α} {r : Routes α} {ip : List UInt8}
    (hip : ip.length = fam.len) (hwf : WF fam [] t) (hview : t.view = r fam) :
    AllowedIPs.lookup fam ip t none = r.find fam ip := by
  rw [lookup_eq_lpm hip hwf (List.nil_append _) none, Option.or_none, hview, Routes.find]

/-- An insert into a tracking trie tracks the new route. -/
theorem insert_tracks {fam : Family} {t : Trie α} {r : Routes α} {cidr : Nat}
    (peer : α) (ip : List UInt8) (hip : ip.length = fam.len) (hcidr : cidr ≤ 8 * fam.len) (hwf : WF fam [] t)
    (hview : t.view = r fam) :
    WF fam [] (AllowedIPs.insert fam ip cidr peer t) ∧
      (AllowedIPs.insert fam ip cidr peer t).view = (r.route fam ip cidr peer) fam := by
  obtain ⟨hwf', hview'⟩ := insert_spec peer hip hcidr hwf
  exact ⟨hwf', by rw [hview', hview, Routes.route, Function.update_self]⟩

/-- The table steps as `Routes` does on every valid call. -/
theorem tracks_simulation : IsSimulationOn Call.Valid (Table.step (α := α)) Routes.step Tracks := by
  intro table r call hvalid h
  cases call with
  | insert pfx peer =>
    obtain ⟨hv, hb⟩ := hvalid
    have hcidr := prefixCidr_le hv hb
    cases hip : pfx.ip with
    | invalid =>
      simp [Table.step, Table.insert, Routes.step, hip, Addr.is6, Addr.is4, h]
    | v4 a =>
      rw [hip] at hcidr
      obtain ⟨hwf, hview⟩ := insert_tracks peer (Addr.v4 a).as4 (by simp [Addr.as4, Family.len])
        (by simpa [Addr.bitLen, Family.len] using hcidr) h.wf4 h.view4
      have hstep : Table.step table (.insert pfx peer) =
          (.ok none, { table with ipv4 := AllowedIPs.insert .v4 (Addr.v4 a).as4 (prefixCidr pfx) peer table.ipv4 }) := by
        simp [Table.step, Table.insert, hip, Addr.is6, Addr.is4]
      have hroutes : Routes.step r (.insert pfx peer) =
          (.ok none, r.route .v4 (Addr.v4 a).as4 (prefixCidr pfx) peer) := by
        simp [Routes.step, hip, Addr.is6, Addr.is4]
      rw [hstep, hroutes]
      exact ⟨rfl, hwf, h.wf6, hview, by dsimp only; rw [Routes.route, Function.update_of_ne (by decide), h.view6]⟩
    | v6 a z =>
      rw [hip] at hcidr
      obtain ⟨hwf, hview⟩ := insert_tracks peer (Addr.v6 a z).as16 (by simp [Addr.as16, Family.len])
        (by simpa [Addr.bitLen, Family.len] using hcidr) h.wf6 h.view6
      have hstep : Table.step table (.insert pfx peer) =
          (.ok none, { table with ipv6 := AllowedIPs.insert .v6 (Addr.v6 a z).as16 (prefixCidr pfx) peer table.ipv6 }) := by
        simp [Table.step, Table.insert, hip, Addr.is6]
      have hroutes : Routes.step r (.insert pfx peer) =
          (.ok none, r.route .v6 (Addr.v6 a z).as16 (prefixCidr pfx) peer) := by
        simp [Routes.step, hip, Addr.is6]
      rw [hstep, hroutes]
      exact ⟨rfl, h.wf4, hwf, by dsimp only; rw [Routes.route, Function.update_of_ne (by decide), h.view4], hview⟩
  | lookup ip =>
    have hstate : (Routes.step r (.lookup ip)).2 = r := by
      simp only [Routes.step]
      split_ifs <;> rfl
    refine ⟨?_, by rw [hstate]; exact h⟩
    simp only [Table.step, Table.lookup, Routes.step]
    split
    · rename_i h16
      rw [lookup_tracks (by simpa [Family.len] using h16) h.wf6 h.view6]
    · split
      · rename_i _ h4
        rw [lookup_tracks (by simpa [Family.len] using h4) h.wf4 h.view4]
      · rfl

/-- From the empty table, every run of calls with valid prefixes gets from the
table the answers `Routes` gives. -/
theorem table_refines_routes (calls : List (Call α)) (hvalid : ∀ c ∈ calls, c.Valid) :
    (run Table.step Table.empty calls).1 = (run Routes.step Routes.empty calls).1 :=
  (tracks_simulation.run calls hvalid tracks_empty).1

/-- Inserting `10.0.0.0/8` and `10.1.0.0/16`, then looking up `10.1.2.3` and `10.2.0.0`. -/
theorem table_refines_routes_v4 :
    (∀ c ∈ [Call.insert ⟨.v4 ⟨0x0a000000, by decide⟩, 9⟩ (1 : Nat),
        .insert ⟨.v4 ⟨0x0a010000, by decide⟩, 17⟩ 2, .lookup [10, 1, 2, 3], .lookup [10, 2, 0, 0]],
        c.Valid) ∧
      (run Table.step Table.empty [Call.insert ⟨.v4 ⟨0x0a000000, by decide⟩, 9⟩ (1 : Nat),
        .insert ⟨.v4 ⟨0x0a010000, by decide⟩, 17⟩ 2, .lookup [10, 1, 2, 3], .lookup [10, 2, 0, 0]]).1 =
      (run Routes.step Routes.empty [Call.insert ⟨.v4 ⟨0x0a000000, by decide⟩, 9⟩ (1 : Nat),
        .insert ⟨.v4 ⟨0x0a010000, by decide⟩, 17⟩ 2, .lookup [10, 1, 2, 3], .lookup [10, 2, 0, 0]]).1 :=
  ⟨by decide, table_refines_routes _ (by decide)⟩

theorem lookup_of_tracks {table : Table α} {r : Routes α} (h : Tracks table r) {fam : Family}
    {ip : List UInt8} (hip : ip.length = fam.len) : table.lookup ip = .ok (r.find fam ip) := by
  cases fam with
  | v4 =>
    have h4 : ip.length = 4 := hip
    rw [Table.lookup, if_neg (by omega), if_pos h4, lookup_tracks hip h.wf4 h.view4]
  | v6 =>
    have h16 : ip.length = 16 := hip
    rw [Table.lookup, if_pos h16, lookup_tracks hip h.wf6 h.view6]

/-- After any run of calls with valid prefixes from the empty table, `Lookup` of an
address answers `peer` exactly when some prefix of the address routes to `peer` and
no longer prefix of it routes anywhere. -/
theorem lookup_longest_prefix (calls : List (Call α)) (hvalid : ∀ c ∈ calls, c.Valid)
    {fam : Family} {ip : List UInt8} (hip : ip.length = fam.len) (peer : α) :
    (run Table.step Table.empty calls).2.lookup ip = .ok (some peer) ↔
      ∃ q, q <+: prefixBits ip (8 * fam.len) ∧ (run Routes.step Routes.empty calls).2 fam q = some peer ∧
        ∀ q', q <+: q' → q' <+: prefixBits ip (8 * fam.len) → q' ≠ q →
          (run Routes.step Routes.empty calls).2 fam q' = none := by
  obtain ⟨-, htracks⟩ := tracks_simulation.run calls hvalid tracks_empty
  rw [lookup_of_tracks htracks hip, Except.ok.injEq, Routes.find, lpm_eq_some_iff]
  simp only [List.nil_prefix, true_and, List.nil_append]

/-- After `10.0.0.0/8` and `10.1.0.0/16`, the address `10.1.2.3` goes to the peer of
the longer prefix. -/
theorem lookup_longest_prefix_v4 :
    (∀ c ∈ [Call.insert ⟨.v4 ⟨0x0a000000, by decide⟩, 9⟩ (1 : Nat),
        .insert ⟨.v4 ⟨0x0a010000, by decide⟩, 17⟩ 2], c.Valid) ∧
      [(10 : UInt8), 1, 2, 3].length = Family.v4.len ∧
      ((run Table.step Table.empty [Call.insert ⟨.v4 ⟨0x0a000000, by decide⟩, 9⟩ (1 : Nat),
          .insert ⟨.v4 ⟨0x0a010000, by decide⟩, 17⟩ 2]).2.lookup [10, 1, 2, 3] = .ok (some 2) ↔
        ∃ q, q <+: prefixBits [10, 1, 2, 3] (8 * Family.v4.len) ∧
          (run Routes.step Routes.empty [Call.insert ⟨.v4 ⟨0x0a000000, by decide⟩, 9⟩ (1 : Nat),
            .insert ⟨.v4 ⟨0x0a010000, by decide⟩, 17⟩ 2]).2 .v4 q = some 2 ∧
          ∀ q', q <+: q' → q' <+: prefixBits [10, 1, 2, 3] (8 * Family.v4.len) → q' ≠ q →
            (run Routes.step Routes.empty [Call.insert ⟨.v4 ⟨0x0a000000, by decide⟩, 9⟩ (1 : Nat),
              .insert ⟨.v4 ⟨0x0a010000, by decide⟩, 17⟩ 2]).2 .v4 q' = none) :=
  ⟨by decide, rfl, lookup_longest_prefix _ (by decide) rfl 2⟩

end AllowedIPs
