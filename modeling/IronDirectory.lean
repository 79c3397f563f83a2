import IronDirectory.Defs.Storage.Interleaving
import IronDirectory.Defs.Ldap.Acceptor
import IronDirectory.Defs.Ldap.SendSequence
import IronDirectory.Defs.Ldap.Confinement
import IronDirectory.Defs.Rpc.AccountRace
import IronDirectory.Defs.Gc.Resync
import IronDirectory.Defs.Ldap.Secrecy
import IronDirectory.Defs.Gc.Agreement
import IronDirectory.Defs.Kdc.Groups
import IronDirectory.Defs.Kdc.Lifetime
import IronDirectory.Defs.Ldap.StartTls
import IronDirectory.Defs.Ldap.SchemaKept
import IronDirectory.Defs.Ldap.ReadBack
import IronDirectory.Defs.Ldap.FilterLaws
import IronDirectory.Defs.Ldap.Compare
import IronDirectory.Defs.Gc.AggregateLaws
import IronDirectory.Defs.Ldap.RenameValues
import IronDirectory.Defs.Ldap.Atomicity
import IronDirectory.Defs.Ldap.TokenLaws
import IronDirectory.Defs.Ldap.WrapLaws
import IronDirectory.Defs.Ldap.Reader
import IronDirectory.Defs.Naming.Descriptor
import IronDirectory.Defs.Crypto.Jose
import IronDirectory.Defs.Crypto.Md4Laws
import IronDirectory.Defs.Ldap.Enctypes
import IronDirectory.Defs.Config.Frame
import IronDirectory.Defs.Kdc.PacSignature
import IronDirectory.Defs.Rpc.NdrFields
import IronDirectory.Defs.Rpc.NetlogonLaws
import IronDirectory.Defs.Kdc.PacInfo
import IronDirectory.Defs.Rpc.ReplyLength
import IronDirectory.Defs.Oidc.Authorize
import IronDirectory.Defs.Kdc.KpasswdFraming
import IronDirectory.Defs.Kdc.CtlLaws
import IronDirectory.Defs.Crypto.KerberosLaws
import IronDirectory.Defs.Bootstrap.Agreement
