import HelixProxy.SquidInclude

/-!
# The dynamic-mode Squid configuration

`config/squid/squid.dynamic.conf`, line by line, and the text Squid reads once
the rendered include stands in the place of the include line.
-/

namespace HelixProxy.Squid

set_option autoImplicit false
set_option maxRecDepth 4096

def baseHead : List Bytes :=
  [lit "# =============================================================================",
   lit "# Helix Proxy — Squid base config for the DYNAMIC (VPN-aware) profile",
   lit "# =============================================================================",
   lit "# FAIL-CLOSED BY DEFAULT (§11.4.108 / security defect P10). This is a",
   lit "# dynamic-mode variant of config/squid/squid.conf. The differences from the",
   lit "# static base — and ONLY these — exist so a client request CANNOT egress unless",
   lit "# a valid, compiler-rendered tunnel config is present AND its tunnel is up:",
   lit "#",
   lit "#   1. There is NO unconditional `http_access allow localnet`. In the static",
   lit "#      base that line allows every LAN client BEFORE any VPN check, which makes",
   lit "#      the fail-closed rules in the rendered include unreachable (first-match-",
   lit "#      wins) and — when no include is present — lets squid egress DIRECTLY.",
   lit "#      The client-allow now lives INSIDE the compiler-rendered include, gated",
   lit "#      AFTER `http_access deny !tun_up`, so it is reached ONLY when the tunnel",
   lit "#      for the request is up.",
   lit "#",
   lit "#   2. The `include /etc/squid/conf.d/*.squid` line is placed BEFORE the terminal",
   lit "#      `http_access deny all`, so the rendered `http_access deny !tun_up` (and",
   lit "#      the gated `allow localnet` after it) are evaluated. With NO include",
   lit "#      present (compiler failed / not yet run) the request falls straight",
   lit "#      through to `deny all` → branded 503, NEVER a direct egress leak.",
   lit "#",
   lit "#   3. `error_directory` is pinned so `deny_info 503:ERR_TUNNEL_DOWN` resolves",
   lit "#      the baked branded page (config/squid/errors/ERR_TUNNEL_DOWN, copied into",
   lit "#      the image error dir by Containerfile.dynamic). Pinning also disables",
   lit "#      language negotiation so the branding is deterministic (§11.4.6).",
   lit "#",
   lit "# The STATIC config/squid/squid.conf is UNTOUCHED (§11.4.122) — it keeps serving",
   lit "# the non-dynamic (`./start --no-vpn` / vpn / host-vpn) proxy exactly as before.",
   lit "# =============================================================================",
   [],
   lit "# Network Settings",
   lit "http_port 0.0.0.0:34128",
   [],
   lit "# Cache Directory Configuration",
   lit "cache_dir aufs /var/spool/squid 51200 16 256",
   lit "cache_mem 512 MB",
   [],
   lit "# Object Size Limits",
   lit "maximum_object_size 100 MB",
   lit "minimum_object_size 1 KB",
   lit "maximum_object_size_in_memory 4 MB",
   [],
   lit "# Cache Replacement Policy",
   lit "cache_replacement_policy lru",
   lit "memory_replacement_policy lru",
   [],
   lit "# Access Control Lists",
   lit "acl localnet src 0.0.0.1-0.255.255.255",
   lit "acl localnet src 10.0.0.0/8",
   lit "acl localnet src 100.64.0.0/10",
   lit "acl localnet src 127.0.0.0/8",
   lit "acl localnet src 169.254.0.0/16",
   lit "acl localnet src 172.16.0.0/12",
   lit "acl localnet src 192.168.0.0/16",
   lit "acl localnet src fc00::/7",
   lit "acl localnet src fe80::/10",
   [],
   lit "# SSL/TLS Ports",
   lit "acl SSL_ports port 443",
   lit "acl Safe_ports port 80",
   lit "acl Safe_ports port 21",
   lit "acl Safe_ports port 443",
   lit "acl Safe_ports port 70",
   lit "acl Safe_ports port 210",
   lit "acl Safe_ports port 1025-65535",
   lit "acl Safe_ports port 280",
   lit "acl Safe_ports port 488",
   lit "acl Safe_ports port 591",
   lit "acl Safe_ports port 777",
   [],
   lit "# CONNECT method ACL",
   lit "acl CONNECT method CONNECT",
   [],
   lit "# Branded fail-closed error page (deny_info 503:ERR_TUNNEL_DOWN resolves here).",
   lit "# Pinned dir → deterministic branding + no language negotiation (§11.4.6).",
   lit "error_directory /usr/share/squid/errors/English",
   [],
   lit "# Access Rules",
   lit "http_access deny !Safe_ports",
   lit "http_access deny CONNECT !SSL_ports",
   lit "http_access allow localhost manager",
   lit "http_access deny manager",
   lit "# NOTE (§11.4.108 fail-closed): NO unconditional `http_access allow localnet`",
   lit "# here. The gated client-allow lives in the compiler-rendered include below,",
   lit "# AFTER `http_access deny !tun_up`. localhost stays allowed (squid mgmt / health).",
   lit "http_access allow localhost",
   lit "# Dynamic-routing include (compiler-rendered at runtime; §11.4.122 additive).",
   lit "# MUST sit BEFORE `http_access deny all`: it contributes",
   lit "# `http_access deny !tun_up` (tunnel down → branded 503) then the gated",
   lit "# `http_access allow localnet` (tunnel up → permitted). With NO matching include",
   lit "# present the request falls through to `deny all` → fail-closed.",
   lit "#",
   lit "# POSITIVE ALLOW-LIST GLOB `*.squid` (§11.4.108 RC-4 fix): NOT `*.conf`. The",
   lit "# ubuntu/squid base image ships `/etc/squid/conf.d/debian.conf` carrying an",
   lit "# UNCONDITIONAL `http_access allow localnet` — a `*.conf` glob pulls it in and it",
   lit "# sorts BEFORE the compiler's include, defeating `deny !tun_up` and leaking direct",
   lit "# egress. The compiler-rendered squid include is written with a `.squid` suffix",
   lit "# (compose `--squid-out …/dynamic-routing.squid`), so `*.squid` matches ONLY it —",
   lit "# never debian.conf/rock.conf, and never the Dante `*.sockd.conf` / `proxy.pac`",
   lit "# that share the generated volume (which would otherwise break `squid -k parse`).",
   lit "# A wildcard glob with ZERO matches (compiler not run) is NOT a fatal error in",
   lit "# Squid — it contributes nothing, so the request falls through to `deny all`."]

def includeLine : Bytes := lit "include /etc/squid/conf.d/*.squid"

def baseTail : List Bytes :=
  [lit "http_access deny all",
   [],
   lit "# Header hygiene & info-leak hardening (§11.4.169 security) — mirror of squid.conf.",
   lit "# via off / httpd_suppress_version_string on keep the internal hostname + Squid",
   lit "# version off the branded ERR_TUNNEL_DOWN page; forwarded_for delete keeps the",
   lit "# client LAN IP off upstream requests (privacy — the VPN-egress purpose).",
   lit "forwarded_for delete",
   lit "via off",
   lit "httpd_suppress_version_string on",
   lit "visible_hostname helix-proxy",
   [],
   lit "# Logging",
   lit "access_log /var/log/squid/access.log squid",
   lit "cache_log /var/log/squid/cache.log",
   lit "cache_store_log /var/log/squid/store.log",
   lit "logfile_rotate 5",
   [],
   lit "# PID file",
   lit "pid_filename /var/run/squid/squid.pid",
   [],
   lit "# Coredump directory",
   lit "coredump_dir /var/spool/squid",
   [],
   lit "# Refresh Patterns",
   lit "refresh_pattern ^ftp:           1440    20%     10080",
   lit "refresh_pattern ^gopher:        1440    0%      1440",
   lit "refresh_pattern -i (/cgi-bin/|\\?) 0     0%      0",
   lit "refresh_pattern .               0       20%     4320",
   [],
   lit "# DNS Configuration",
   lit "dns_nameservers 8.8.8.8 8.8.4.4",
   lit "positive_dns_ttl 3600 seconds",
   lit "negative_dns_ttl 30 seconds",
   [],
   lit "# Performance Tuning",
   lit "server_persistent_connections on",
   lit "client_persistent_connections on",
   lit "half_closed_clients off"]

def squidDynamicConf : Bytes := Lines.terminated nl (baseHead ++ includeLine :: baseTail)

/-- The include line replaced by a text. -/
def assembled (included : Bytes) : Bytes :=
  Lines.terminated nl baseHead ++ included ++ nl :: Lines.terminated nl baseTail

def withoutInclude : Bytes := Lines.terminated nl (baseHead ++ baseTail)

def headConf : List (List Bytes) :=
  [[lit "http_port", lit "0.0.0.0:34128"],
   [lit "cache_dir", lit "aufs", lit "/var/spool/squid", lit "51200", lit "16", lit "256"],
   [lit "cache_mem", lit "512", lit "MB"],
   [lit "maximum_object_size", lit "100", lit "MB"],
   [lit "minimum_object_size", lit "1", lit "KB"],
   [lit "maximum_object_size_in_memory", lit "4", lit "MB"],
   [lit "cache_replacement_policy", lit "lru"],
   [lit "memory_replacement_policy", lit "lru"],
   [lit "acl", lit "localnet", lit "src", lit "0.0.0.1-0.255.255.255"],
   [lit "acl", lit "localnet", lit "src", lit "10.0.0.0/8"],
   [lit "acl", lit "localnet", lit "src", lit "100.64.0.0/10"],
   [lit "acl", lit "localnet", lit "src", lit "127.0.0.0/8"],
   [lit "acl", lit "localnet", lit "src", lit "169.254.0.0/16"],
   [lit "acl", lit "localnet", lit "src", lit "172.16.0.0/12"],
   [lit "acl", lit "localnet", lit "src", lit "192.168.0.0/16"],
   [lit "acl", lit "localnet", lit "src", lit "fc00::/7"],
   [lit "acl", lit "localnet", lit "src", lit "fe80::/10"],
   [lit "acl", lit "SSL_ports", lit "port", lit "443"],
   [lit "acl", lit "Safe_ports", lit "port", lit "80"],
   [lit "acl", lit "Safe_ports", lit "port", lit "21"],
   [lit "acl", lit "Safe_ports", lit "port", lit "443"],
   [lit "acl", lit "Safe_ports", lit "port", lit "70"],
   [lit "acl", lit "Safe_ports", lit "port", lit "210"],
   [lit "acl", lit "Safe_ports", lit "port", lit "1025-65535"],
   [lit "acl", lit "Safe_ports", lit "port", lit "280"],
   [lit "acl", lit "Safe_ports", lit "port", lit "488"],
   [lit "acl", lit "Safe_ports", lit "port", lit "591"],
   [lit "acl", lit "Safe_ports", lit "port", lit "777"],
   [lit "acl", lit "CONNECT", lit "method", lit "CONNECT"],
   [lit "error_directory", lit "/usr/share/squid/errors/English"],
   [lit "http_access", lit "deny", lit "!Safe_ports"],
   [lit "http_access", lit "deny", lit "CONNECT", lit "!SSL_ports"],
   [lit "http_access", lit "allow", lit "localhost", lit "manager"],
   [lit "http_access", lit "deny", lit "manager"],
   [lit "http_access", lit "allow", lit "localhost"]]

def tailConf : List (List Bytes) :=
  [[lit "http_access", lit "deny", lit "all"],
   [lit "forwarded_for", lit "delete"],
   [lit "via", lit "off"],
   [lit "httpd_suppress_version_string", lit "on"],
   [lit "visible_hostname", lit "helix-proxy"],
   [lit "access_log", lit "/var/log/squid/access.log", lit "squid"],
   [lit "cache_log", lit "/var/log/squid/cache.log"],
   [lit "cache_store_log", lit "/var/log/squid/store.log"],
   [lit "logfile_rotate", lit "5"],
   [lit "pid_filename", lit "/var/run/squid/squid.pid"],
   [lit "coredump_dir", lit "/var/spool/squid"],
   [lit "refresh_pattern", lit "^ftp:", lit "1440", lit "20%", lit "10080"],
   [lit "refresh_pattern", lit "^gopher:", lit "1440", lit "0%", lit "1440"],
   [lit "refresh_pattern", lit "-i", lit "(/cgi-bin/|\\?)", lit "0", lit "0%", lit "0"],
   [lit "refresh_pattern", lit ".", lit "0", lit "20%", lit "4320"],
   [lit "dns_nameservers", lit "8.8.8.8", lit "8.8.4.4"],
   [lit "positive_dns_ttl", lit "3600", lit "seconds"],
   [lit "negative_dns_ttl", lit "30", lit "seconds"],
   [lit "server_persistent_connections", lit "on"],
   [lit "client_persistent_connections", lit "on"],
   [lit "half_closed_clients", lit "off"]]

theorem assembled_includeLine : assembled includeLine = squidDynamicConf := by
  simp [assembled, squidDynamicConf, Lines.terminated_append]

theorem baseHead_no_nl : ∀ l ∈ baseHead, nl ∉ l := by
  simp (disch := exact rfl) only [baseHead, lit_eq]
  decide

theorem baseTail_no_nl : ∀ l ∈ baseTail, nl ∉ l := by
  simp (disch := exact rfl) only [baseTail, lit_eq]
  decide

theorem words_baseHead : (baseHead.filter isDirective).map words = headConf := by
  simp (disch := exact rfl) only [baseHead, headConf, lit_eq]
  decide

theorem words_baseTail : (baseTail.filter isDirective).map words = tailConf := by
  simp (disch := exact rfl) only [baseTail, tailConf, lit_eq]
  decide

theorem base_not_continued :
    ∀ l ∈ baseHead.filter isDirective ++ baseTail.filter isDirective, l.getLast? ≠ some 92 := by
  simp (disch := exact rfl) only [baseHead, baseTail, lit_eq]
  decide

end HelixProxy.Squid
