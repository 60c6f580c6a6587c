import Perftest.Lib.GetOpt

namespace Perftest

open GetOpt

/-- What the build has of the macros that guard long options. -/
structure OptionBuild where
  haveTdApi : Bool
  haveIpv6 : Bool
  haveSniffer : Bool
  haveAesXts : Bool
  haveDcs : Bool
  haveRo : Bool
  haveOooAttr : Bool
  haveHnsdv : Bool
  haveOooRecvWrs : Bool
  haveSrdWithUnsolicitedWriteRecv : Bool
  haveRegMrEx : Bool
  haveSigOffload : Bool

/-- The long options with a letter: the name, whether there is an argument, and the letter. -/
def aliasedNames : List (String × Bool × Char) :=
  [("port", true, 'p'), ("ib-dev", true, 'd'), ("ib-port", true, 'i'), ("mtu", true, 'm'),
    ("size", true, 's'), ("iters", true, 'n'), ("tx-depth", true, 't'), ("qp-timeout", true, 'u'),
    ("sl", true, 'S'), ("gid-index", true, 'x'), ("all", false, 'a'), ("CPU-freq", false, 'F'),
    ("connection", true, 'c'), ("qp", true, 'q'), ("events", false, 'e'), ("vector", true, 'X'),
    ("inline_size", true, 'I'), ("outs", true, 'o'), ("mcg", false, 'g'),
    ("comm_rdma_cm", false, 'z'), ("rdma_cm", false, 'R'), ("tos", true, 'T'),
    ("hop_limit", true, 'L'), ("help", false, 'h'), ("MGID", true, 'M'), ("rx-depth", true, 'r'),
    ("bidirectional", false, 'b'), ("cq-mod", true, 'Q'), ("noPeak", false, 'N'),
    ("version", false, 'V'), ("report-cycles", false, 'C'), ("report-histogrm", false, 'H'),
    ("report-unsorted", false, 'U'), ("atomic_type", true, 'A'), ("dualport", false, 'O'),
    ("post_list", true, 'l'), ("duration", true, 'D'), ("margin", true, 'f'),
    ("source_mac", true, 'B'), ("dest_mac", true, 'E'), ("dest_ip", true, 'J'),
    ("source_ip", true, 'j'), ("dest_port", true, 'K'), ("source_port", true, 'k'),
    ("ethertype", true, 'Y'), ("limit_bw", true, 'w'), ("limit_msgrate", true, 'y'),
    ("server", false, 'Z'), ("client", false, 'P'), ("mac_fwd", false, 'v'),
    ("use_rss", false, 'G'), ("report-counters", true, 'W')]

/-- The long options that set a variable: the name, whether there is an argument, and the variable. -/
def flaggedNames (b : OptionBuild) : List (String × Bool × String) :=
  [("force-link", true, "force_link_flag"), ("remote_mac", true, "remote_mac_flag"),
    ("local_mac", true, "local_mac_flag"), ("remote_ip", true, "remote_ip_flag"),
    ("local_ip", true, "local_ip_flag"), ("remote_port", true, "remote_port_flag"),
    ("local_port", true, "local_port_flag"), ("run_infinitely", false, "run_inf_flag"),
    ("report_gbits", false, "report_fmt_flag"), ("use-srq", false, "srq_flag")] ++
  (if b.haveTdApi then [("no_lock", false, "no_lock_flag")] else []) ++
  [("use-null-mr", false, "use_null_mr_flag"), ("report-both", false, "report_both_flag"),
    ("reversed", false, "is_reversed_flag"), ("pkey_index", true, "pkey_flag"),
    ("tcp", false, "tcp_flag"), ("burst_size", true, "burst_size_flag"),
    ("typical_pkt_size", true, "typical_pkt_size_flag"), ("rate_limit", true, "rate_limit_flag"),
    ("rate_limit_type", true, "rate_limit_type_flag"), ("rate_units", true, "rate_units_flag"),
    ("output", true, "verbosity_output_flag"), ("cpu_util", false, "cpu_util_flag"),
    ("out_json", false, "out_json_flag"), ("out_json_file", true, "out_json_file_flag"),
    ("latency_gap", true, "latency_gap_flag"), ("flow_label", true, "flow_label_flag"),
    ("retry_count", true, "retry_count_flag"),
    ("dont_xchg_versions", false, "dont_xchg_versions_flag"),
    ("payload_file_path", true, "payload_flag"), ("use_cuda", true, "use_cuda_flag"),
    ("use_cuda_bus_id", true, "use_cuda_bus_id_flag"),
    ("use_cuda_dmabuf", false, "use_cuda_dmabuf_flag"),
    ("use_cuda_pcie_mapping", false, "use_cuda_pcie_mapping_flag"),
    ("use_data_direct", false, "use_data_direct_flag"),
    ("cuda_mem_type", true, "cuda_mem_type_flag"), ("use_musa", true, "use_musa_flag"),
    ("use_musa_bus_id", true, "use_musa_bus_id_flag"),
    ("use_musa_dmabuf", false, "use_musa_dmabuf_flag"),
    ("use_musa_pcie_mapping", false, "use_musa_pcie_mapping_flag"),
    ("use_rocm", true, "use_rocm_flag"), ("use_rocm_dmabuf", false, "use_rocm_dmabuf_flag"),
    ("use_neuron", true, "use_neuron_flag"), ("use_neuron_dmabuf", false, "use_neuron_dmabuf_flag"),
    ("use_hl", true, "use_hl_flag"), ("use_mlu", true, "use_mlu_flag"),
    ("use_mlu_dmabuf", false, "use_mlu_dmabuf_flag"), ("use_opencl", true, "use_opencl_flag"),
    ("opencl_platform_id", true, "opencl_platform_id_flag"),
    ("use_ib_dm_dmabuf", true, "use_ib_dm_dmabuf_flag"),
    ("use_cc_unprotected", false, "use_cc_unprotected_flag"),
    ("use_sys_dmabuf", false, "use_system_dmabuf_flag"), ("gpu_touch", true, "gpu_touch_flag"),
    ("mmap", true, "mmap_file_flag"), ("mmap-offset", true, "mmap_offset_flag"),
    ("ipv6", false, "ipv6_flag"), ("ipv6-addr", false, "ipv6_addr_flag")] ++
  (if b.haveIpv6 then [("raw_ipv6", false, "raw_ipv6_flag")] else []) ++
  [("report-per-port", false, "report_per_port_flag"), ("odp", false, "odp_flag"),
    ("use_hugepages", false, "hugepages_flag"), ("use_old_post_send", false, "old_post_send_flag"),
    ("promiscuous", false, "use_promiscuous_flag")] ++
  (if b.haveSniffer then [("sniffer", false, "use_sniffer_flag")] else []) ++
  [("raw_mcast", false, "raw_mcast_flag"), ("mr_per_qp", false, "mr_per_qp_flag"),
    ("dlid", true, "dlid_flag"), ("tclass", true, "tclass_flag"),
    ("wait_destroy", true, "wait_destroy_flag"), ("flows", true, "flows_flag"),
    ("flows_burst", true, "flows_burst_flag"), ("reply_every", true, "reply_every_flag"),
    ("perform_warm_up", false, "perform_warm_up_flag"), ("vlan_en", false, "vlan_en"),
    ("vlan_pcp", true, "vlan_pcp_flag"), ("recv_post_list", true, "recv_post_list_flag")] ++
  (if b.haveAesXts then [("aes_xts", false, "aes_xts_flag"),
    ("encrypt_on_tx", false, "encrypt_on_tx_flag"), ("sig_before", false, "sig_before_flag"),
    ("aes_block_size", true, "aes_block_size_flag"), ("kek_path", true, "kek_path_flag"),
    ("credentials_path", true, "credentials_path_flag"),
    ("data_enc_keys_number", true, "data_enc_keys_number_flag"),
    ("data_enc_key_app_path", true, "data_enc_key_app_path_flag")] else []) ++
  (if b.haveDcs then [("log_dci_streams", true, "log_dci_streams_flag"),
    ("log_active_dci_streams", true, "log_active_dci_streams_flag")] else []) ++
  (if b.haveRo then [("disable_pcie_relaxed", false, "disable_pcir_flag")] else []) ++
  (if b.haveOooAttr then [("use_ooo", false, "use_ooo_flag")] else []) ++
  (if b.haveHnsdv then [("congest_type", true, "congest_type_flag")] else []) ++
  [("bind_source_ip", true, "source_ip_flag"), ("write_with_imm", false, "use_write_with_imm_flag"),
    ("send_with_imm", false, "use_send_with_imm_flag")] ++
  (if b.haveOooRecvWrs then [("no_enhanced_reorder", false, "no_enhanced_reorder_flag")] else []) ++
  (if b.haveSrdWithUnsolicitedWriteRecv then [
    ("unsolicited_write", false, "unsolicited_write_flag")] else []) ++
  [("connectionless", false, "connectionless_flag"), ("cqe_poll", true, "cqe_poll_flag")] ++
  (if b.haveRegMrEx then [("tph_mem", true, "tph_mem_flag"), ("cpu_id", true, "cpu_id_flag"),
    ("ph", true, "processing_hints_flag")] else []) ++
  [("disable_dynamic_polling", false, "disable_dynamic_polling_flag")] ++
  (if b.haveSigOffload then [("sig_offload", false, "sig_offload_flag")] else []) ++
  [("data_validation", false, "data_validation_flag"),
    ("data_validation_debug", false, "data_validation_debug_flag"),
    ("pin_cores", true, "pin_cores_flag"), ("numa_node", true, "numa_node_flag"),
    ("disable_numa", false, "disable_numa_flag")]

def aliasedOptions : List LongOption := aliasedNames.map fun n => ⟨n.1, n.2.1, none, n.2.2.toNat⟩

def flaggedOptions (b : OptionBuild) : List LongOption :=
  (flaggedNames b).map fun n => ⟨n.1, n.2.1, some n.2.2, 1⟩

/-- `long_options` without its empty last entry. -/
def longOptions (b : OptionBuild) : List LongOption := aliasedOptions ++ flaggedOptions b

def shortOptions : List Char :=
  ("w:y:p:d:i:m:s:n:t:u:S:x:c:q:I:o:M:r:Q:A:l:D:f:B:T:L:E:J:j:K:k:X:W:" ++
    "aFegzRvhbNVCHUOZP").toList

/-- The slot of a short option, from the code of its letter. -/
def charIndex (c : Int) : Int := if 65 ≤ c ∧ c ≤ 90 then c - 65 else c - (65 + 6)

section Letters

variable {b : OptionBuild} {o : LongOption} {i j : Nat}

theorem aliasedOptions_length : aliasedOptions.length = 52 := rfl

/-- The letters are those of the alphabet, in both cases. -/
theorem aliasedOptions_letter : ∀ o ∈ aliasedOptions, o.flag = none ∧
    (65 ≤ o.val ∧ o.val ≤ 90 ∨ 97 ≤ o.val ∧ o.val ≤ 122) := by
  decide +kernel

theorem aliasedOptions_nodup : (aliasedOptions.map LongOption.val).Nodup := by
  decide +kernel

theorem flaggedOptions_flag : ∀ o ∈ flaggedOptions b, o.flag ≠ none := by
  intro o ho
  obtain ⟨n, -, rfl⟩ := List.mem_map.mp ho
  exact Option.some_ne_none _

theorem lookupShort_mem {c : Char} {l : List Char} (h : lookupShort c l ≠ none) :
    c ∈ l ∧ c ≠ ':' := by
  induction l with
  | nil => exact absurd rfl h
  | cons x l ih =>
    rw [lookupShort] at h
    split at h
    next hx => exact ⟨List.mem_cons.mpr (.inl hx.1.symm), hx.2.1⟩
    next =>
      obtain ⟨hm, hc⟩ := ih h
      exact ⟨List.mem_cons_of_mem x hm, hc⟩

/-- Every short option is in the table. -/
theorem shortOptions_aliased {c : Char} (h : lookupShort c shortOptions ≠ none) :
    ∃ o ∈ aliasedOptions, o.val = c.toNat := by
  have hall : (shortOptions.all fun x =>
      decide (x ≠ ':' → ∃ o ∈ aliasedOptions, o.val = x.toNat)) = true := by
    decide +kernel
  obtain ⟨hm, hc⟩ := lookupShort_mem h
  exact of_decide_eq_true (List.all_eq_true.mp hall c hm) hc

/-- The entries without a variable come first. -/
theorem aliased_of_flag (hi : (longOptions b)[i]? = some o) (hf : o.flag = none) :
    aliasedOptions[i]? = some o := by
  unfold longOptions at hi
  by_cases hlt : i < aliasedOptions.length
  · rwa [List.getElem?_append_left hlt] at hi
  · rw [List.getElem?_append_right (not_lt.mp hlt)] at hi
    exact absurd hf (flaggedOptions_flag o (List.mem_of_getElem? hi))

theorem flagged_index (hi : (longOptions b)[i]? = some o) (hf : o.flag ≠ none) :
    aliasedOptions[i]? = none := by
  unfold longOptions at hi
  cases ha : aliasedOptions[i]? with
  | none => rfl
  | some o' =>
    have hlt := (List.getElem?_eq_some_iff.mp ha).1
    rw [List.getElem?_append_left hlt] at hi
    exact absurd (aliasedOptions_letter o (List.mem_of_getElem? hi)).1 hf

/-- The slots of the letters are the first fifty-two. -/
theorem charIndex_range (h : o ∈ aliasedOptions) :
    0 ≤ charIndex o.val ∧ charIndex o.val < 52 := by
  have hl := (aliasedOptions_letter o h).2
  unfold charIndex
  split <;> omega

theorem charIndex_inj {o' : LongOption} (hi : aliasedOptions[i]? = some o)
    (hj : aliasedOptions[j]? = some o') (h : charIndex o.val = charIndex o'.val) : i = j := by
  have hl := (aliasedOptions_letter o (List.mem_of_getElem? hi)).2
  have hl' := (aliasedOptions_letter o' (List.mem_of_getElem? hj)).2
  have hval : o.val = o'.val := by
    unfold charIndex at h
    split at h <;> split at h <;> omega
  have hlt := (List.getElem?_eq_some_iff.mp hi).1
  apply (List.getElem?_inj (by rwa [List.length_map]) aliasedOptions_nodup).mp
  rw [List.getElem?_map, List.getElem?_map, hi, hj, Option.map_some, Option.map_some, hval]

end Letters

/-- The slot that an entry of the table is counted in. -/
def optionSlot (i : Nat) : Int := match aliasedOptions[i]? with
  | some o => charIndex o.val
  | none => i

theorem optionSlot_inj {i j : Nat} (h : optionSlot i = optionSlot j) : i = j := by
  unfold optionSlot at h
  have hout : ∀ {k : Nat}, aliasedOptions[k]? = none → (52 : Int) ≤ k := by
    intro k hk
    have hle := List.getElem?_eq_none_iff.mp hk
    rw [aliasedOptions_length] at hle
    omega
  split at h
  next o hi =>
    have hr := charIndex_range (List.mem_of_getElem? hi)
    split at h
    next o' hj => exact charIndex_inj hi hj h
    next hj =>
      have hle := hout hj
      omega
  next hi =>
    have hle := hout hi
    split at h
    next o' hj =>
      have hr := charIndex_range (List.mem_of_getElem? hj)
      omega
    next hj => omega

/-- Every entry has its slot in the array. -/
theorem optionSlot_range {b : OptionBuild} {i : Nat} (h : i < (longOptions b).length) :
    0 ≤ optionSlot i ∧ optionSlot i < (longOptions b).length + 1 := by
  unfold optionSlot
  split
  next o hi =>
    have hr := charIndex_range (List.mem_of_getElem? hi)
    have hl : 52 ≤ (longOptions b).length := by
      rw [longOptions, List.length_append, aliasedOptions_length]
      omega
    omega
  next => omega

end Perftest
