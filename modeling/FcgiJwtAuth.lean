import FcgiJwtAuth.CLang.Emplace
import FcgiJwtAuth.CLang.Arena
import FcgiJwtAuth.CLang.Feed
import FcgiJwtAuth.CLang.Numerals
import FcgiJwtAuth.CLang.Strtol
import FcgiJwtAuth.CLang.Percent
import FcgiJwtAuth.CLang.Delimited
import FcgiJwtAuth.HTTPUtils.CookieGrammar
import FcgiJwtAuth.HTTPUtils.CookieLookup
import FcgiJwtAuth.HTTPUtils.Path
import FcgiJwtAuth.HTTPUtils.PathReaders
import FcgiJwtAuth.HTTPUtils.RouteRoundTrip
import FcgiJwtAuth.HTTPUtils.CookieRestore
import FcgiJwtAuth.Jwks.RefreshRate
import FcgiJwtAuth.Jwks.KeyLoading
import FcgiJwtAuth.Jwks.RefreshContent
import FcgiJwtAuth.Jwks.MalformedDocuments
import FcgiJwtAuth.Jwks.SigningKey
import FcgiJwtAuth.Jwks.Provenance
import FcgiJwtAuth.Application.VerifyOutcome
import FcgiJwtAuth.Application.OneToken
import FcgiJwtAuth.Application.Expiry
import FcgiJwtAuth.Sha.Fips180
import FcgiJwtAuth.Sha.Sha256Correct
import FcgiJwtAuth.OpenIdConnect
import FcgiJwtAuth.SimpleTemplate.SinglePass
import FcgiJwtAuth.SimpleTemplate.TwoStages
import FcgiJwtAuth.QuotedStringParser.ClosingQuote
import FcgiJwtAuth.QuotedStringParser.Inplace
import FcgiJwtAuth.QuotedStringParser.LoneQuote
import FcgiJwtAuth.QuotedStringParser.Fields
import FcgiJwtAuth.QuotedStringParser.Commandline
import FcgiJwtAuth.QuotedStringParser.Arguments
import FcgiJwtAuth.QuotedStringParser.Callbacker
import FcgiJwtAuth.QuotedStringParser.RawFields
import FcgiJwtAuth.FormDecoder.ContentDisposition
import FcgiJwtAuth.FormDecoder.Context
import FcgiJwtAuth.FormDecoder.CallbackSafety
import FcgiJwtAuth.FormDecoder.Ledger
import FcgiJwtAuth.FormDecoder.Reassembly
import FcgiJwtAuth.FormDecoder.AttributeNames
import FcgiJwtAuth.FormDecoder.AttributeReads
import FcgiJwtAuth.FormDecoder.Urlencoded
import FcgiJwtAuth.FormDecoder.FieldLaws
import FcgiJwtAuth.HttpClient.ResponseBuffer
import FcgiJwtAuth.AppAuth.CodeCache
import FcgiJwtAuth.AppAuth.Dispatch
import FcgiJwtAuth.AppAuth.PathNumber
import FcgiJwtAuth.AppAuth.Verification
import FcgiJwtAuth.AppAuth.LoginFlow
import FcgiJwtAuth.AppAuth.OneResponse
import FcgiJwtAuth.AppAuth.Logout
import FcgiJwtAuth.AppAuth.ControlPaths
import FcgiJwtAuth.AppAuth.AddedMarkup
import FcgiJwtAuth.AppFileman
import FcgiJwtAuth.CLang.Keeps
import FcgiJwtAuth.CLang.Transcript
import FcgiJwtAuth.Jwks.MicrosoftStore
import FcgiJwtAuth.AppAuth.ServerRuns
import FcgiJwtAuth.AppAuth.CodeProvenance
import FcgiJwtAuth.CLang.CookieJar
import FcgiJwtAuth.CLang.HeaderBlock
import FcgiJwtAuth.HTTPUtils.ClientCookies
import FcgiJwtAuth.AppAuth.SetCookies
import FcgiJwtAuth.AppAuth.JarLogout
import FcgiJwtAuth.AppAuth.Sessions
import FcgiJwtAuth.AppAuth.SplitResponse
import FcgiJwtAuth.AppAuth.Restart
import FcgiJwtAuth.CLang.Credentials
import FcgiJwtAuth.FilemanNoSpawn
import FcgiJwtAuth.CLang.Triple
import FcgiJwtAuth.FormDecoder.Fastcgi
