import SubConverter.Lib.Delimited

set_option autoImplicit false

namespace SubConverter.Parser

inductive ProxyType where
  | unknown
  | shadowsocks
  | shadowsocksR
  | vmess
  | trojan
  | snell
  | http
  | https
  | socks5
  | wireGuard
  | vless
  | hysteria
  | hysteria2
  | tuic
  | anyTLS
  | naive
  | mieru
deriving DecidableEq, Repr

def getProxyTypeName : ProxyType → Text
  | .unknown => chars "Unknown"
  | .shadowsocks => chars "SS"
  | .shadowsocksR => chars "SSR"
  | .vmess => chars "VMess"
  | .trojan => chars "Trojan"
  | .snell => chars "Snell"
  | .http => chars "HTTP"
  | .https => chars "HTTPS"
  | .socks5 => chars "SOCKS5"
  | .wireGuard => chars "WireGuard"
  | .vless => chars "Vless"
  | .hysteria => chars "Hysteria"
  | .hysteria2 => chars "Hysteria2"
  | .tuic => chars "Tuic"
  | .anyTLS => chars "AnyTLS"
  | .naive => chars "Naive"
  | .mieru => chars "Mieru"

structure Proxy (ρ : Type) where
  type : ProxyType := .unknown
  id : UInt32 := 0
  groupId : UInt32 := 0
  group : Text := []
  remark : Text := []
  hostname : Text := []
  port : UInt16 := 0
  others : ρ
deriving DecidableEq, Repr

end SubConverter.Parser
