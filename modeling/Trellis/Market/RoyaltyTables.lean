import Trellis.Market.Sales

/-!
# The royalty tables

`register_collection` and `set_collection_royalties` check the shares of a royalty table with one
loop, and only the first of them limits the number of its entries. A sale makes a transfer for every
entry.

Results:
* `sumShares_succeeds`: which tables the loop accepts.
* `setCollectionRoyalties_succeeds`: when a table is replaced.
* `royaltyConfig?_done`: a call keeps a table, registers a short one or replaces one.
* `sale_transfers`: a sale makes three transfers more than the table has entries, at most.
* `royaltyTables_limited_iff`: when the tables and the numbers of transfers stay within the limits.
-/

namespace Trellis.Market

open Exec

variable {me : Address}

/-! ## The limits -/

/-- The table has no more entries than the limit, the shares are in their range, and the total is
    their sum. -/
structure RoyaltyConfig.Limited (config : RoyaltyConfig) : Prop where
  length : config.recipients.length ≤ maxRoyaltyRecipients
  bounds : ∀ r ∈ config.recipients, 0 ≤ r.shareBps ∧ r.shareBps ≤ maxRoyaltyBps
  total_eq : config.totalBps = (config.recipients.map RoyaltyRecipient.shareBps).sum

/-- The calls that sell an item. -/
def Entry.Sells : Entry → Prop
  | .buyNft .. | .settleEnglishAuction .. | .buyDutchAuction .. | .acceptOffer .. => True
  | _ => False

/-- Every registered collection has a table within the limits, and every sale makes a limited number
    of transfers. -/
structure TablesLimited (me : Address) (w : World Store) : Prop where
  tables : ∀ c info, w.store.collection? c = some info → info.royaltyConfig.Limited
  transfers : ∀ (env : Env me) (c : Entry), c.Sells →
    (exec env c w).tokens.log.length ≤ w.tokens.log.length + (maxRoyaltyRecipients + 3)

/-- A call of `set_collection_royalties` that passes its checks (the admin of a registered
    collection signs, the shares are in their range and their sum is an `i128`) has no more entries
    than the limit. -/
def ReplacesLimited (w : World Store) : Step me Entry → Prop
  | .call env (.setCollectionRoyalties caller collection royalties) =>
    env.signed caller = true →
      (∃ info, w.store.collection? collection = some info ∧ info.admin = caller) →
      (∀ r ∈ royalties, 0 ≤ r.shareBps ∧ r.shareBps ≤ maxRoyaltyBps) →
      (royalties.map RoyaltyRecipient.shareBps).sum < 2 ^ 127 →
      royalties.length ≤ maxRoyaltyRecipients
  | _ => True

/-! ## Replacing a table -/

/-- The loop accepts the tables whose shares are in their range and have a sum that is an `i128`. -/
theorem sumShares_succeeds {rs : List RoyaltyRecipient} {total : ℤ} {w : World Store}
    (h₀ : 0 ≤ total) (h₁ : total < 2 ^ 127) :
    (∃ total', sumShares rs total w = .ok total' w) ↔
      (∀ r ∈ rs, 0 ≤ r.shareBps ∧ r.shareBps ≤ maxRoyaltyBps) ∧
        total + (rs.map RoyaltyRecipient.shareBps).sum < 2 ^ 127 := by
  induction rs generalizing total with
  | nil =>
    refine ⟨fun _ => ⟨fun r hr => absurd hr List.not_mem_nil, ?_⟩, fun _ => ⟨total, rfl⟩⟩
    simpa using h₁
  | cons r rs ih =>
    rw [List.forall_mem_cons, List.map_cons, List.sum_cons, ← add_assoc]
    constructor
    · rintro ⟨total', h⟩
      simp only [sumShares, bind_ok, failIf_ok, expect_ok, checkedAdd_eq_some, not_or, not_lt] at h
      obtain ⟨_, _, ⟨hr, rfl⟩, _, _, ⟨⟨hfits, rfl⟩, rfl⟩, hrest⟩ := h
      obtain ⟨hbounds, hsum⟩ := (ih (add_nonneg h₀ hr.1) hfits.2).mp ⟨total', hrest⟩
      exact ⟨⟨hr, hbounds⟩, hsum⟩
    · rintro ⟨⟨hr, hbounds⟩, hsum⟩
      have hrest : 0 ≤ (rs.map RoyaltyRecipient.shareBps).sum := by
        apply List.sum_nonneg
        intro x hx
        obtain ⟨r', hr', rfl⟩ := List.mem_map.mp hx
        exact (hbounds r' hr').1
      have hnext : total + r.shareBps < 2 ^ 127 := by omega
      have hlow : 0 ≤ total + r.shareBps := add_nonneg h₀ hr.1
      obtain ⟨total', hloop⟩ := (ih hlow hnext).mpr ⟨hbounds, hsum⟩
      refine ⟨total', ?_⟩
      simp only [sumShares, bind_ok, failIf_ok, expect_ok, checkedAdd_eq_some, not_or, not_lt]
      exact ⟨(), w, ⟨hr, rfl⟩, _, w, ⟨⟨⟨by omega, hnext⟩, rfl⟩, rfl⟩, hloop⟩

/-- A table is replaced when the admin of the collection signs and the loop accepts the new one. -/
theorem setCollectionRoyalties_succeeds {env : Env me} {caller collection : Address}
    {royalties : List RoyaltyRecipient} {w : World Store} :
    (setCollectionRoyalties env caller collection royalties).Succeeds w ↔
      env.signed caller = true ∧
        (∃ info, w.store.collection? collection = some info ∧ info.admin = caller) ∧
        (∀ r ∈ royalties, 0 ≤ r.shareBps ∧ r.shareBps ≤ maxRoyaltyBps) ∧
        (royalties.map RoyaltyRecipient.shareBps).sum < 2 ^ 127 := by
  have hloop : (∃ total, sumShares royalties 0 w = .ok total w) ↔
      (∀ r ∈ royalties, 0 ≤ r.shareBps ∧ r.shareBps ≤ maxRoyaltyBps) ∧
        0 + (royalties.map RoyaltyRecipient.shareBps).sum < 2 ^ 127 :=
    sumShares_succeeds le_rfl (by norm_num)
  rw [zero_add] at hloop
  constructor
  · rintro ⟨u, w', h⟩
    simp [setCollectionRoyalties] at h
    obtain ⟨hsigned, collections, hcollections, info, hinfo, howner, total, w₁, hsum, -⟩ := h
    obtain ⟨rfl, -, -⟩ := sumShares_ok hsum
    refine ⟨hsigned, ⟨info, ?_, howner⟩, hloop.mp ⟨total, hsum⟩⟩
    rw [Store.collection?, hcollections]
    exact hinfo
  · rintro ⟨hsigned, ⟨info, hinfo, howner⟩, hshares⟩
    obtain ⟨total, hsum⟩ := hloop.mpr hshares
    unfold Store.collection? at hinfo
    cases hcollections : w.store.collections with
    | none =>
      rw [hcollections] at hinfo
      cases hinfo
    | some collections =>
      rw [hcollections] at hinfo
      refine ⟨(),
        { w with store := { w.store with collections := some (collections.insert collection
        { info with royaltyConfig := ⟨royalties, total⟩ }) } }, ?_⟩
      simp only [setCollectionRoyalties, bind_ok, requireAuth_ok, read_ok, okOr_ok, failIf_ok,
        write_ok, not_not]
      exact ⟨(), w, ⟨hsigned, rfl⟩, _, w, ⟨rfl, rfl⟩, collections, w, ⟨hcollections, rfl⟩, info, w,
        ⟨hinfo, rfl⟩, (), w, ⟨howner, rfl⟩, total, w, hsum, rfl⟩

theorem royaltyConfig?_bumpStats {s s' : Store} {bumped : Address} {dl da : ℤ}
    (h : s.bumpStats bumped dl da = some s') {collection : Address} {config : RoyaltyConfig}
    (hconfig : s'.royaltyConfig? collection = some config) :
    s.royaltyConfig? collection = some config :=
  ((Store.bumpStats_some h).2 collection).symm.trans hconfig

/-- The table of a collection after a call: the old one, a short one, or one that replaces it. -/
theorem royaltyConfig?_done {env : Env me} {c : Entry} {w w' : World Store}
    (hdone : Done env w c w') {collection : Address} {config : RoyaltyConfig}
    (hconfig : w'.store.royaltyConfig? collection = some config) :
    w.store.royaltyConfig? collection = some config ∨
      config.recipients.length ≤ maxRoyaltyRecipients ∨
      ∃ caller, c = .setCollectionRoyalties caller collection config.recipients := by
  cases hdone with
  | init => cases hconfig
  | setPlatformFee | setFeeRecipient | setBidIncrement | setAutoExtension | setCurrency | setOracle
  | placeBid | makeOffer | acceptOffer | cancelOffer => exact .inl hconfig
  | registerCollection events total hadmin hsigned hnew hhash haccepted hlength =>
    unfold Store.royaltyConfig? at hconfig
    rw [Store.collection?_set] at hconfig
    split_ifs at hconfig
    · obtain rfl := Option.some.inj hconfig
      exact .inr (.inl hlength)
    · exact .inl hconfig
  | @setCollectionRoyalties caller _ royalties info =>
    unfold Store.royaltyConfig? at hconfig
    rw [Store.collection?_set] at hconfig
    split_ifs at hconfig with hc
    · obtain rfl := Option.some.inj hconfig
      exact .inr (.inr ⟨caller, by rw [hc]⟩)
    · exact .inl hconfig
  | listNft w₁ events hactive hsigned hprice hcurrency hhash hcollection hlisted =>
    exact .inl (royaltyConfig?_bumpStats hlisted.store hconfig)
  | createEnglishAuction w₁ e events hactive hsigned hstart hcurrency hhash hcollection hduration
      hend hauctioned =>
    exact .inl (royaltyConfig?_bumpStats hauctioned.store hconfig)
  | createDutchAuction w₁ e events hactive hsigned hstart hfloor hcurrency hhash hcollection hprices
      hduration hend hauctioned =>
    exact .inl (royaltyConfig?_bumpStats hauctioned.store hconfig)
  | cancelListing l s hsigned hl hopen hseller hstats =>
    exact .inl (royaltyConfig?_bumpStats hstats hconfig)
  | settleUnsold a s hactive ha hopen htime hbid hstats =>
    exact .inl (royaltyConfig?_bumpStats hstats hconfig)
  | cancelDutchAuction a s hsigned ha hopen htype hseller hstats =>
    exact .inl (royaltyConfig?_bumpStats hstats hconfig)
  | buyNft l feeRecipient fee w₁ s events hactive hsigned hl hopen hsold hstats =>
    rw [hsold.store] at hstats
    exact .inl (royaltyConfig?_bumpStats hstats hconfig)
  | settleSold a feeRecipient fee w₁ s events hactive ha hopen htime hbid hsold hstats =>
    rw [hsold.store] at hstats
    exact .inl (royaltyConfig?_bumpStats hstats hconfig)
  | buyDutchAuction a price feeRecipient fee w₁ s events hactive hsigned ha hopen htype hprice hne
      hsold hstats =>
    rw [hsold.store] at hstats
    exact .inl (royaltyConfig?_bumpStats hstats hconfig)
  | bulkList w' hactive hsigned hlength heach =>
    left
    rw [← hconfig]
    symm
    refine keeps_listed (P := fun s => s.royaltyConfig? collection =
      w.store.royaltyConfig? collection) (fun item w₁ w₂ h hitem => ?_) heach rfl
    exact ((Store.bumpStats_some hitem.store).2 collection).trans h
  | bulkCreateAuctions w' hactive hsigned hlength heach =>
    left
    rw [← hconfig]
    symm
    refine keeps_auctioned (P := fun s => s.royaltyConfig? collection =
      w.store.royaltyConfig? collection) (fun item e w₁ w₂ h hitem => ?_) heach rfl
    exact ((Store.bumpStats_some hitem.store).2 collection).trans h

/-! ## The transfers of a sale -/

theorem length_ifPos (x : TokenTransfer) : x.ifPos.length ≤ 1 := by
  unfold Transfer.ifPos
  split_ifs
  · exact le_rfl
  · exact Nat.zero_le 1

theorem length_royaltyAmounts {s : Store} {limit : ℕ} {collection : Address} (price : ℤ)
    (h : ∀ config, s.royaltyConfig? collection = some config → config.recipients.length ≤ limit) :
    (s.royaltyAmounts collection price).length ≤ limit := by
  unfold Store.royaltyConfig? at h
  unfold Store.royaltyAmounts
  cases hinfo : s.collection? collection with
  | none => exact Nat.zero_le limit
  | some info =>
    have hlength := h info.royaltyConfig (by rw [hinfo]; rfl)
    rw [Option.map_some, Option.getD_some, computeRoyaltyAmounts]
    split_ifs
    · exact Nat.zero_le limit
    · refine (List.length_filter_le _ _).trans ?_
      rw [List.length_map]
      exact hlength

theorem Sold.length_log {sale : Sale} {feeRecipient : Address} {fee : ℤ} {w w' : World Store}
    (hsold : Sold me sale feeRecipient fee w w') {limit : ℕ}
    (h : ∀ config, w.store.royaltyConfig? sale.collection = some config →
      config.recipients.length ≤ limit) :
    w'.tokens.log.length ≤ w.tokens.log.length + (limit + 3) := by
  have hfee := length_ifPos ⟨sale.currency, sale.payer, feeRecipient, fee⟩
  have hproceeds :=
    length_ifPos ⟨sale.currency, sale.payer, sale.seller, sellerProceeds sale.price fee
    (w.store.royaltyAmounts sale.collection sale.price)⟩
  have hroyalties := length_royaltyAmounts sale.price h
  rw [hsold.log, Sale.payments]
  simp only [List.length_append, List.length_map, List.length_singleton]
  omega

/-- A sale makes three transfers more than the table has entries, at most. -/
theorem sale_transfers {w : World Store} {limit : ℕ}
    (h : ∀ c config, w.store.royaltyConfig? c = some config → config.recipients.length ≤ limit)
    (env : Env me) {c : Entry} (hsells : c.Sells) :
    (exec env c w).tokens.log.length ≤ w.tokens.log.length + (limit + 3) := by
  rcases exec_cases env c w with hsame | hdone
  · rw [hsame]
    exact Nat.le_add_right _ _
  · generalize exec env c w = w' at hdone
    cases hdone with
    | buyNft l feeRecipient fee w₁ s events hactive hsigned hl hopen hsold =>
      exact hsold.length_log (h _)
    | settleSold a feeRecipient fee w₁ s events hactive ha hopen htime hbid hsold =>
      exact hsold.length_log (h _)
    | buyDutchAuction a price feeRecipient fee w₁ s events hactive hsigned ha hopen htype hprice hne
        hsold =>
      exact hsold.length_log (h _)
    | settleUnsold =>
      dsimp only
      rw [Ledger.log_move, List.length_append, List.length_singleton]
      omega
    | acceptOffer o fee feeRecipient =>
      have hfee := length_ifPos ⟨o.currency, me, feeRecipient, fee⟩
      have hproceeds := length_ifPos ⟨o.currency, me, o.recipient, o.offerAmount - fee⟩
      dsimp only
      rw [Ledger.log_moveAll]
      simp only [List.length_append, List.length_singleton]
      omega
    | _ => exact hsells.elim

/-! ## Every reachable state -/

theorem tablesLimited_iff {w : World Store} (h : Accepting w.store) :
    TablesLimited me w ↔ ∀ c config, w.store.royaltyConfig? c = some config →
      config.recipients.length ≤ maxRoyaltyRecipients := by
  constructor
  · intro hlimited c config hconfig
    obtain ⟨info, hinfo, rfl⟩ := Option.map_eq_some_iff.mp hconfig
    exact (hlimited.tables c info hinfo).length
  · intro hlength
    refine ⟨fun c info hinfo => ?_, fun env c => sale_transfers hlength env⟩
    have hconfig : w.store.royaltyConfig? c = some info.royaltyConfig := by
      rw [Store.royaltyConfig?, hinfo]
      rfl
    have haccepted := h.royalties c _ hconfig
    exact ⟨hlength c _ hconfig, haccepted.bounds, haccepted.total_eq⟩

theorem tablesLimited_step_iff {w : World Store} (h : Accepting w.store)
    (hlimited : TablesLimited me w) (s : Step me Entry) :
    TablesLimited me (step s w) ↔ ReplacesLimited w s := by
  rw [tablesLimited_iff (h.step s)]
  have hbefore := (tablesLimited_iff h).mp hlimited
  cases s with
  | outside env x =>
    refine iff_of_true (fun c config hconfig => hbefore c config ?_) trivial
    rwa [step, Step.apply, store_outsideTransfer] at hconfig
  | call env c =>
    show (∀ C config, (exec env c w).store.royaltyConfig? C = some config → _) ↔ _
    constructor
    · intro hafter
      cases c with
      | setCollectionRoyalties caller collection royalties =>
        intro hsigned hadmin hbounds hsum
        -- the call goes through, so that the table is the stored one
        obtain ⟨u, w', hok⟩ := setCollectionRoyalties_succeeds.mpr ⟨hsigned, hadmin, hbounds, hsum⟩
        have hexec : exec env (.setCollectionRoyalties caller collection royalties) w = w' :=
          commit_of_ok hok
        rw [hexec] at hafter
        cases setCollectionRoyalties_done hok with
        | setCollectionRoyalties info total =>
          refine hafter collection ⟨royalties, total⟩ ?_
          unfold Store.royaltyConfig?
          rw [Store.collection?_set, if_pos rfl]
          rfl
      | _ => trivial
    · intro hlimit C config hconfig
      rcases exec_cases env c w with hsame | hdone
      · rw [hsame] at hconfig
        exact hbefore C config hconfig
      · rcases royaltyConfig?_done hdone hconfig with hold | hshort | ⟨caller, rfl⟩
        · exact hbefore C config hold
        · exact hshort
        · rcases commit_cases (setCollectionRoyalties env caller C config.recipients) w with
            ⟨u, hok⟩ | ⟨-, hsame⟩
          · obtain ⟨hsigned, hadmin, hbounds, hsum⟩ :=
              setCollectionRoyalties_succeeds.mp ⟨u, _, hok⟩
            exact hlimit hsigned hadmin hbounds hsum
          · have hexec : exec env (.setCollectionRoyalties caller C config.recipients) w = w :=
              hsame
            rw [hexec] at hconfig
            exact hbefore C config hconfig

/-- In every state of a run every registered collection has a table within the limits, and every
    sale makes at most three transfers more than a table may have entries, exactly when no call of
    `set_collection_royalties` that passes its checks brings too many entries. -/
theorem royaltyTables_limited_iff (tokens : TokenLedger) (steps : List (Step me Entry)) :
    (∀ x ∈ trace step (World.deployed Store.empty tokens) steps, TablesLimited me (step x.2 x.1)) ↔
      ∀ x ∈ trace step (World.deployed Store.empty tokens) steps, ReplacesLimited x.1 x.2 := by
  have hstart : Accepting (World.deployed Store.empty tokens).store :=
    accepting_run tokens ([] : List (Step me Entry))
  refine trace_forall_iff (P := fun w : World Store => Accepting w.store) (N := fun _ _ => True)
    (fun w s h _ => h.step s)
      (fun w s h _ hlimited => tablesLimited_step_iff h hlimited s) hstart ?_
    fun _ _ => trivial
  rw [tablesLimited_iff hstart]
  intro c config hconfig
  cases hconfig

/-- The admin of the collection replaces its table by one with `n` entries. -/
def replacing (n : ℕ) : Step ⟨0⟩ Entry :=
  .call (.signedBy ⟨0⟩ 2 2 [⟨1⟩]) (.setCollectionRoyalties ⟨1⟩ ⟨7⟩ (List.replicate n ⟨⟨5⟩, 100⟩))

/-- A run from the deployment that registers a collection with one royalty and replaces the
    table. -/
def replacedWith (n : ℕ) : List (Step ⟨0⟩ Entry) :=
  .call (.signedBy ⟨0⟩ 1 1 []) (.init ⟨1⟩ 1000 ⟨8⟩ 500 300) :: (openedWith 1 ++ [replacing n])

/-- Two entries are within the limits. -/
theorem royaltyTables_limited_iff_two :
    TablesLimited ⟨0⟩ (run step (World.deployed Store.empty marketFunds) (replacedWith 2)) := by
  have hall : ∀ x ∈ trace step (World.deployed Store.empty marketFunds) (replacedWith 2),
      TablesLimited ⟨0⟩ (step x.2 x.1) := by
    refine (royaltyTables_limited_iff marketFunds (replacedWith 2)).mpr ?_
    intro x hx
    have hstep := mem_of_mem_trace hx
    simp only [replacedWith, openedWith, List.cons_append, List.nil_append, List.mem_cons,
      List.not_mem_nil, or_false] at hstep
    rcases hstep with h | h | h | h
    · rw [h]
      trivial
    · rw [h]
      trivial
    · rw [h]
      trivial
    · rw [h]
      intro _ _ _ _
      decide
  exact hall (run step (World.deployed Store.empty marketFunds) ((replacedWith 2).take 3),
    replacing 2)
    (mem_trace_iff.mpr ⟨(replacedWith 2).take 3, [], rfl, rfl⟩)

/-- Eleven entries are accepted all the same, where `register_collection` rejects them. -/
theorem royaltyTables_not_limited :
    (∃ info,
      (run step (World.deployed Store.empty marketFunds) (replacedWith 11)).store.collection? ⟨7⟩ =
        some info ∧ info.royaltyConfig.recipients.length = 11) ∧
    ¬ ∀ x ∈ trace step (World.deployed Store.empty marketFunds) (replacedWith 11),
      TablesLimited ⟨0⟩ (step x.2 x.1) := by
  have hinfo : ∃ info, (run step (World.deployed Store.empty marketFunds)
      (replacedWith 11)).store.collection? ⟨7⟩ = some info ∧
        info.royaltyConfig.recipients.length = 11 := ⟨_, rfl, rfl⟩
  refine ⟨hinfo, fun hall => ?_⟩
  obtain ⟨info, hlookup, hlength⟩ := hinfo
  have hlast : (run step opened (openedWith 1), replacing 11) ∈
      trace step (World.deployed Store.empty marketFunds) (replacedWith 11) :=
    mem_trace_iff.mpr
      ⟨.call (.signedBy ⟨0⟩ 1 1 []) (.init ⟨1⟩ 1000 ⟨8⟩ 500 300) :: openedWith 1, [],
      rfl, rfl⟩
  have hle := ((hall _ hlast).tables ⟨7⟩ info hlookup).length
  rw [hlength] at hle
  exact absurd hle (by decide)

end Trellis.Market
