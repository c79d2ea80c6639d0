/-!
Names of the characters of living and older alphabets, with the codes from 20 to 1FFF.
-/
namespace InlineMarkup

def alphabetNames : String :=
  "^Q|[O0k:dcZNLWxCV.1VoAi~[$H[u?yl%>>/P~6&.*O*O)G3)x9wlFPtHFzB7T(VP>:_?ltg*Pf(;P<XXIq.,s;[*`GV'wDx,4aDy|wh60_Nf4?.hcC
lcLtU_FA8_!sdM+E@dda4m_DXM$?*ba%k@[]JTKW*ObJQ%ZKm=7O$kGjHGq|]`jv8u2_13Npp`qm@h8`T75<u^2$$%I58YU4AQoC2uwGxI'Ox59.A48eNO
05y~/Ysja%Un'yZ6o!mMB>aHsg5'7x>kaJW2]+:zH@%/V<V6,_4gCcgm]u82YNxfQJo1r3^/UM@A~1a^)32jQ)GZ68Nv]=gfvxHZI2JuQDFPG`SXoYAGgI
+$a9y^1TY@fcw/`6;g[2bLDcDVH>c8mGi8TU7<Y2Ov=nT!|e~r)h7Q<3PlqW8@>pV/Dj<m_XoQbSNA@j7q*<?GA57zYbxty!,K,zDKYAS'wi>*p:`ii7+?
8Fw<UZr!Ec6=7?sJ^)UhPc8>RC5:0f&4fznS~Eju+._T*/Q.6$H3/$/%.yaZ:MqMFkEtED9kp6HG87F48vqw*0IxY::Wuw.4W*Pqg0KF7I'N64mxAk7XUt
?MVUvsT+h3zAnFj8a%TD],7&1QxTME'e@<k]%SUA8oI?f6iQ*okg/YNQ1.S9o;&MR[Z>!!rn,!fdUV|^*A;(G>;f9IZ+Qe.z4?]+ON4Jt17d_xBkKl!^A3
KC'+DU$zpe/W+EI)=Ny*Lb,m'=0rS%lDjc2m*EGkoTpHQ*sdVrA/0Ji9;`yaI?3`rkF2q6OTC8^(/*s~o*dL%dkLaTIbZzGcrDs]kfR,=Z_c;jNVY$c*3x
Kpe5z;y6B<w)VE$C^i)eUI6PcWp;KE!xpyy3+r3cffzQzeq0+^W!wV/i>]t!'sGv:sZreAQy)e3m]qb`)AgWfs=zI$q?;RKCM7j0Ys@[2,wsF=sgT&SyjC
[`j&YOm0f99(NJV.PGSwCjV^Sa~]8O`GBHi)88P2.L;_kvF0~fS(<^.oYfthGsksh6`?D!OrVYKwx_X4Dwl'|Hnaa3YJ4<1o5S?m_D;I$;?BO>HCPZe|k$
W/~a&'t[3'~IyMopJ;l?7$smN/:(T'y$Oaehw!d,~[32CpGratx`tWJVP$M*CA00OVDAP`HjYP?p|<8W.3CHJASGdS=,DYbk$eegG?FDO/foEh9<BrR'g,
oVh3SH4~@x3g;(ywrB_`C$&~=8:9IP]0UyoQO61'j|ifBnPG@GEf_XWihJZ'jHJZ<t~h@fxIgtZx65M9ia,i,|ER~gmC$Y/>y`LJhNCT=]$ti'Nqc8&'!E
RRQ;Pflx@)s$c?Jm+7=8.FpXqY83;xW%IotiwQ?y22=w3M=(9F>CP|$'ixh[XYk&DfL4GP1thDaQ6=r|Cb3=:R:87(7+&rBZfv;0Jdn2C/2k$A7$9K[bo$
VtaB:u'3v?=YnrF,GT9nBgb'O7cM8orL&w:8,a$$$5^M?e<H=UBzZ.Uy.au<e,]Mkuaxif5qCU3dV`?D$@T^k2TgZ.zev[8=gnpM;@]/[,B_Vr;AU~9C);
=9Ynke/**$DyV5sd.c%qy1nY3L4X/+wzz!nm8k9<V2.x|q[sb5VOkWENHJ&8ZJbqiJWu@K0KzW>Sq4h?wll/w2x2[v&o/BkV>BoU%O^8,,UWB]DkdW$6D2
&YWu=G99;M4hZ`^gI^)(1E%%0yb]b`L3.57W]+<IQ.i1eCA6K9@8(IrJ4t%a<wH]!O|%>Izt&LovW]YaAnK_QjjPf6jkzPzGJhLZu*|c,XD'6Dk&PknxGk
c:5YrY1(ofzF,[&,=bVLwcr`E;!_[XNTgalN%rYE~wQe)9UlvbG%nC8]z^3NDCb+g?XOsF_*?iS7%(qr5YxN_?up]m;=lxjFe$WgA<JeE4_l,'S[^uoav,
w?coK8DgK<:+Yu7w]2)<Md5Kn>uNTM1Qrm%!09Ir)j4,ZbT,>Z=PDDB]gI,qb=?nkK'c]Br7x)IZI>(XDC@P@%S=]g]51E(dR,56FEAk+)su,fX5OtTyG7
`M_%`zKjZ;uH8%/%Z7hDG<Dt0R/|n[vB`x2M9u$9,w:!!:1nunHS(zljwK`/qF<xV?nU,Blp1dXAWQF.tc/~H:dkO>ZM~!a=+oNyusT%7LJI11>MeSbrKe
Oq[k)hU=lwZ)xC(tFzXZpcRUNu[EMtFd^k;rNXW_C!`P%>4.$b$oZqIQ*kx]u:3Nv%)FD@[h474K;RP+1<|f1p9ol]m@KB&p5pgLj!_EC%ICl6Dj5w)@3`
=e]Id$v/6_'X3Pphr`i!f0cstrsx7jYFGGq+tb~/[St75ND<VJZ'%p'vd;k~Mi$[c^Ex0sA*W^/u[B'>]^:VZz:~18jY4`QwZC05r;y|YufC0WbNp9M1mW
6.L&x[H9@$)e$PIU[dw(4/xslvQh~:d|npH8eNSv2DqL!&oq!d0*Xcz'U_+K'aG~>v3*O/=5[HL%(Z?pZUX*3uNDX26gozHm|JJkX=W9XTGuCyv>GQO%%0
c@AA1dq|P~2x,+]q;2zbVr~WiU)+|=(ra2zi!66b4jErK9`$~$kH,vD~;uCy^>Z('L1:F(511Tw3s]`|^hhe(P]JAaw86^9av,]FC_Rb_[$TjGPGF)=Vzu
B4_b<WNX=NH8E/FW*tE_L&./)au/PFt,Sxf<lprN'bh8HIYoRCDg'_bq7XtmaOyqHcaWrh'1vkWfnAEfNa5B?Im%6FScB!*q,ThN[%_v*aiR>q*wp9b1Uy
..W%hWd,p`|pe64SxwW&bUb:Z3aS'`=3a:PTZ,Dn~Z8QH>`!,uBDdG:Ac8)ET4Xa5p&k*UIGC:aZIO|G6Pda_Ve*O7h|@Wwe,VeF)j['w=!=>p=yLo_=NH
V`2F:iht85~0MsZw:gGU_uNE0MW8W=LpoNdf*B1J^tLf(J*Zz_YNM468LA4BE]z27C!zpLwm:;%5o.Qh1wvnTa7~/Rd8g::v5_?@)OdTJ0L~qZyf&V!>eQ
K>?S4B3$;>LP:KnTV:YAlOuk/4~__O5[mxkv]PXVnyk*JwtETtd[@nB>TLrk$4BwjTR0kbTL31^pU[;2l8,eK(yvW0%!yI|GL|K.&4Qxw|i:]hKMW<v1qd
4a;)l%<D0>l8asxWZfhIdd!oYBPTG7$;>0FoqYkI6~Bp/yE(%2Ql>:w5W=oi^/Fi&BlknwnhO2q3;OKH=f[bBzde6s9D[xhP8[|]9tQe3TT*@9kqc?:x'6
TROS1xsC8W*<~so[lunfG;=+_mQ)yWKUnT&xv`0lv.^MGW!IKvB=RG3BAd.Z:OT!,u3jG|8nOYpU^2@pNAyf|:Nt:YRut3aV'b~Ew?@3DT4fWh[AtY~Qn0
K8(&M2oX&b16@Kr0rn`5?peryInFBj~WrNO~vKa;r1!A[KQ&Rg&Awa_GdZ1fB6^7ZKiM+<s9OoA]p<7pd>@ok@5YmUFzWfwx_i]T~hq]br6=TWvcQMYX7I
?o;POc>w`1I5bPk'A_*m=Q_OwXQ^wIQ@n+/07EXt>UtrMa++I:t&74aDGW+GlGE5&6[[&F@Vvtt;/g9*=RR)E5fr6W>3h@MQ=p6,YH~_E>Rf$wqGJ&!cjM
N_[6AxP_kQ`LK,8RTw?wmrznq/csw/rb/Bt?GXix$Opq]N2MUhDIO[Mmmx24gj`BHeK;Qrm;b`Y!&wCd5I^^TnB=8xL?8DZR~zEs]v6fIj$IexUFu&V2/X
a>mAl`rh^TsVnp+oD/LvuYwe&u,S4%HQ3Yv4><(;M9[~xay4,pfRLN`JHR)xe2%+>UY)s56=leq~[y,Zv+tu6]0~)J5|_)@22>xwHw$%dMp%vk.!?^YzFQ
w1DX'!bUzUTt)h|oJ:nvpJ:x`XawC55|r92iX<%5s98RxQowT>5<V:b]CZ!ou<K$<Zq^G9~ec<31:TWrD7&5[qJlc_Q!`UlQ0^@HwPHvn;,/oEE5fUZWOx
>GX7L86X]vZQ`cXp1<74w9k_[0C<O&z`vq/pirLqerLnomLJ(Ubi:&2)T=LzV2<!n^!8mO'=`CTw3fH>jJ,V3Kjes[/*3k9(v~G_`R~6w44Ewt+cpa;~&@
5nrU93Z|[PmpTUO7Ph5h`])cXIFm.`^a|jFXN'g~WJ>D?HwdHnn2a`Zx89K>Vi<hNA2oxGx8?rz[hCZVqpYDpVDlT+na&+(p?(I@@E1f'4/Bz6dGMNXQYK
Ec/vB4yRV0:+lR=Y`9<H3IkZ0[Q5.@u8!D`p9@m3_epv]j'Jp^U9@R*sp6p4Plb5B*D5Vk6.WDk>pMv!E<..OE04i6/T?bhkd[7jt<!Y5NrY?!&M|W%~F*
=qVIL*(F+7Wqng!]0q?@qR>RyH&rA^XetfmQ9l+GraDpPZg=A?pB|Ze@NPtCbo&G_Cj|dammN09[;by_VQ<7F`e_=]q.|~SW_a'z!.RJj`B)`[zO4E^hT^
eyqeGVZL)E9CRwcWwW,Ha_0@6w@@,_/3'QDokchVZ&m2bN4b4|Bv(=8FjGDvho1W|,2?5<Y,F~nV';:d(3p(g=X.akH,k+3xL9K)269rjeJH8DiLlm'?Xi
infPX)S)Xa=W.L<;38.|<Dv,Sy'%>Ea++w9E2,3Bdk8qW8dmBAC,n_Y&@ki642><*S6wf~FZBhdt/CRS~ZkK[Dan~J+>Usk>2M8KUawNc@QmB>o%Hi_m=O
FafuVDrdL;$|*ZqkO.]5k:cZ]t0wBLO3/D_l02=)6Hh'];!Z1XXa1ysqL93oT8L,1,wia)/vBd>7f5WtqkDEE5fZy8A,d54s_~J6,+c&0o)%!487B^QHZ3
dEfK+'*08^^D*THCR8NjX5xxanbh*~r@Tcn<73_v+@!E&'ng,Hz.0y/W?ze.OS!`Ztu~DTm,R9l,i9CqPl0haHAnOce@tV<)&]>V?5z8L'_dxE,U@Nzs^d
0HQ>v!C!Tep!FkPih7.*L3a>yyXqwB7:yTfjgVT_A<bm~RwJ'KcwR1A!`me~0''9TO86l7x4?^$yQke(*C9LA=AA*ULe,rLhtV&Puwod6'>+R]Q%yj4niT
KSADtuyk_+N:<+a+'0u;`U0&tm3E0>&2S=`7&+|C*YDlkTvwZp)%!V!2(hO;a2*yW>S~$.&,?,4~JDeDngUP(.l7=8w84&8bF*XOJg)p(G`YzM/TssNEhY
_%DE2!go'Vu?,/A%LAgz4c3fbZir%bwp8/mh_yPX;HuQ8`,E'4HYhK8Wz:=h<6Dcr$bL[<*:I2^i=5$cK~vRSg4JV>8$/&1m,lB]F3i1r*j+[=t5DYOCd!
I08ch1o=~;vv5BjIR+[Ytx()>vft8Q(>'%=~'5dIf8%5hszz$hZr3F*P]st`G1V1>W^:|yP1N7>y`M4!UK_Od74rX*29chS_^Kl'9B&d_+++qH=])*yW`d
_YP40r1P,A>BS+g[nXIg!cM?*jI.[Zt/=P%~sjqUND*F?3(CFkRhF7x&q4[b^MqIbbnpeVI[+Oj)3h4q9=2?]&,W@agq+(kLn|X)wnYWTSo78*>'3E7[Kh
GWE,skCn^!P$*bro4MnN^A.hksN+J3TDN?jl:SW9;gv[VPC/CyP3Fdv4v_o.1yTKWq`zL),+Rd0+:=g?UN+NxyZXZg62?`ion,7y0?M6p+<&=Ni)6ma6=:
5dYX$d_>pguy7&aN(df4cKiO]2)sy:be>m;~a;b9<SVi]4CwKx;q$rV;$S`fu&F8b(SEZwt`lpQOw'539:38Z&g+B^HCTiS;pj|dL=.m]j~dWVW<fg&oMf
wNNwQ>/)h>0YweTF|ZK2t!Plq3uGpf,^D/+:ft<5R0oPk;5=H6T7*ynRq;Dh3[f;1;U~42I(lf]po%v^h1m~DS>x:j3suFUmuy=vflbVj^Z>k]$h$=V|zr
[xsy8e4c~[RS04^qGjDA=q6sJIYU?jU|mF:,:aa|[1zCkIO)`ZFiBK2V|Jkn`se$J[d%iK>/GIN'=gVn6b.CBXAo4WZAI8*L.vK,upFH=L(|G@z.o=,Itc
h=%DX*CghPUF1h?B!O('^p)GXgvVYEF?$g)wBJ,qb~6h,L>/.$A]avOT&1T_B.Z=[kH?d]sM&6a^.'xfgUgrvK6*[ju5kL0c)v,9D:QH<@)K5f.29NZ|48
i/<GUHKu!yChS9[4BnOvT_uft/iudR]`@Qn?Atc=,7t!G;vZs6Ai;rxOw<u8$Dg.6y(?3+E=2q5yEZCjv!9_heScZ`^xR9$`cHrgTXL)g7ZANtbXcl.KiI
rRd.pw~%TaRO|?]$f[P~/INO_&&PqDRGXO0<&PLbC7KThZCq:,M5hoKye=eqz4!/;WuAX5eWsnQ0_a*m2nD?._Xf^WA<pBWSET~mh(&3JM?ZI+[]f'WUry
OFZ=;0C<Oo/F`zFzoOlyvXp@FL5b7%|mryxmk/q`Bxt$ASoP<V/z<GKagT0pD.$L&LVmBZnuY@Lw%U<tkSEsz>t=ocLD[h<.o[(rFS;/x`)x7rK4HZEM^^
Wpi*'HnSF!ip3BAf8]F(<L4pnkdFD/WVT*XoXz2<'v!pM;cBbLCZ/5rM+Qae0_.(o`SQ`Lu@CRbAX!PvzNel@6i1XZIcOz>XJ)&8u]$E8T`4b9apvgZo(d
FMf;HcwC?Q.V^:`,mIvGMq@%qhVTDoJV4``LZB$<Y83I9H2E/uOx)x>:J/2HV$TPy8UfMsG<GwTH4oL)'(~9J5y7S29Wijn/IQVI;r<!zo1^943m_J1jx.
35Pd.$sKqcwvn8=[=')I8ve6<B<R:>isnf0[k>|.Cc4N4JQ`SOEdf%&'Oj)qSsrnmpJCJn>W.$OC]VKDBPe^;`mJ:o%Yu|k?xS!Qe912GNk(ICR;M(P'd@
8K<XV'5lRyo%VY_v%uLHwjU<b3`+3oK/4TJxX:@mk&z:1;0lqvX4Aiiz1cdEd(gtL`Ien,T<0qiOt)o4YbBhvo%3>OE0VXVXjBB&FcL53~J$dCl~d/wn~P
KGJ*iq1,macF&f<5YUBG$+j5h+R8^pBv8Fn437XP3zK65'Lr~|dS|;G$@KWQo*JnS4A8|^VpOTY(P*@.jujwg;t6OCM7)D,kHH.0?y8n*[8_BiQv<pRls;
ah2[kZ&uA%@gblq0%o&yrn=Z,X]vJ>g%82em)[E2DHh,nbExxS.A/k+]eP~SrY)v8o!zc^Hc~No2tm/])~PBYP6`W|2W^xj$|,,*;q*g'h^OVd's8mcUgl
!z0fC~j(:rtr!z]82xfzF.,i~80]'BH4&770F0u2q619@rXw_W2&[*fRj0Ax4/5t2~&Qkv)IZ3'(UQYH!'ONC0KPqVc6+ZDf&T.NC*.CCMe4O<)_i0CYCH
5>EL[mjn&aiDvW)mV1VxcW5nB8<C`I:7<f:l;J4>p:h$b<2_swPPv7j,rHXb~/6jO5;|GmT]/^ObNS?z[wKse[dP~kE<l)<?q*4@8_j9F(*:j_d&XiDe=J
*&pGpo88)bYD(DQkp_ut7KMsYAA'O;])t/@)dsS)fZjIDq<R*U?a6*Mp4OI;BA`is.C/KdVl(bCWwjleuUBLm?$iEox=wYI_u5opV%/_'VZ6~&'G99L|:9
5exGMK5f[R>UB:H<*W?7@M;@|3_]q'2oBM;nI9E1NP%JC5LkaR~eq=iugL_HP1`F&BRO`yPu&c<~z]|`HK&r^uRAVn;e~@ZeU&s%+(elMy%r%u*l=<^BPJ
M/`T@dYF0O`mP6/57*xzrT@6ZPvDMu&RK?_Hr$j0s>o1ojfTP&ODiVi^=zU5+Gq1=~wV</m^UN;le6P7~+FHy5>@eqc~T*LtMp8p'`w^E|dWKA'&E3H&]`
,BJ&E~+Wh,''p@TSkpu%oO_?076hk6_Vz(uugG$@DX4mDwFx0aWCcfun_:ESE5U.9LgLMjR0.T;R2xzAmuV$s|qX<Uk3:'>&fO1i44>``?j56Jr2@j$yD:
2x<m3K;j8><7=HX:p>g:f,O,5@gkiTG^_vayN&96Bg'i`x=CWH|m`Sw%Fx98fMir:rj=kcT<h?zirytQom(DjosuaUd~T?NKtO%JV'V[Qq**2YFG.A6ESA
M~`Pd(0^WqzV+*Ad5baLtb@Qa[opc87K9^dy<S]guSZ^ZFlz4ZW8,A@9*b'40O3iF|fa'=i3R(%5>5o:ns:TtZ;/V%;:pO,oq]fW90P/0<UEW&s`n]eJdR
sl`77F/8lw:zj&[a?!IXbZ~wfEgnULY1yM[/9))Rs1t2>ltG9k:g=s2='2VHARyWcVoUSGZJ~xR:Dg)oYf<rHb,I:Q6JSlV3SL!_ms+*X[G!^xn(rf13Q|
zc9FbwS@8vgoRl.V)+wEpGpY&?YdSA6bKZ/A!jyx4r>qIKz%G|mQrl4?<JdYg>vvB=q`P]UY:>^D@R6BXM>pG4q^FO;Y4[l($XT/a<BG7wvCMGSJL]]E`&
M$w?5_qIVvl_;/`OZRWQBdR'B.;S@4!y.$lELO0C~9.uX/7Rg1+u6dA3QrymO^JE>flhn.71kLJyehr3dhQ[9]|gl~Mk0oJ:eO8VB2>RnbZebKPsVk=V16
'ZpE1AGM=wv%ekR*wt_!A21L.k/FG06_',52?4bwcz!2,8J.szj)GBb:P*0.Tl;*RY_[,Bt7VKa27h0oeMS!KZZS2s&GHTet$WZ8VS<e/4xz!t=X1zeD>[
Qg6o~]?fy:mv]2(DeK>0hvfw?&(&D.3gag7$obM2XTv%;52&0yeQ0`0K;~?E_.kb($FbCwCAEse9m2*'VUakv<>RvfZtjM(KEzw3L?d[y0qv;`UEt43B_)
Uzcd|mQUzuJPA`&@@'LZEGo8t^ynUG`%KCrs';~>fcUwu7s|bXg&H:pN|1|O;G4Wr*vk[jPKv:kNSOyM=w=r^!<rHxplr9EIxhPpVEPBNy],tAN(=v]5=_
*wqOxouHy/hXdIu;2i[|0gKl:+DUj1I0Ru&B$UArUxg]QrWnD|]XfB=!h>V]Tm2(Eb<Kc9t8E0!TH3jp/j_F89xA)'t]*IV7C+%h/34!!1'<)v1xM)d!yj
Yo+38BR)*N~:>KA'wI8Qm<WpvkNWno=n_&g_)*M>HR()Pb4GQwd9?pUc?/at8(jt:9d!h)%PypG:cvC]CNq2yBvFx8$ft7:9+o,j)(f;~%g_p|5rHEdP.G
r%t:*0oU0jvp<|`n*O~Y%DawDQBB*cCsD'bj'XiG&Y!_K(HK>y!8C/B5,bDIitY2s)^CANIAgDNI_p`a1+kk0|A)xC3|u<k&y9mO6Ko7<3%*WA`&GEbdJO
xqb*pp)Lla&.F4d@48IPl0kA<M|Y~:xPi]1=|[DdYpVR?Q^EgktGrXR=5TW9P5O*mGZh[o21e'N)hTJZ6+2vgvJ_D+Q/?&Zif0I]cZX?im!9JBQJEMU_^D
Z@`cZeAE_Wz,$v$0:HH_Xn`R]DEB0zF6Yf_D54^aHe?L=toIh_kJTYe)n`GiX(|kel?%GLIs(+g<n*WO0llHxY1qyb!5Rnh07VeqQ3hjjFa1+.Huq~^XIG
1qj[VerD$ZyDL?CUwzL6gNG_6`wNvgmQJAm_55~(s^^,aAVtcz!2i:HTWtlp4,uThFC=Xl|Gw^NcQ;_JH7M|y=$gKV~SGRIN79h7)UA*|yh4!^ze^Uvhq=
[,D+1T/pz4XGQlY~CW']`IrnpD.+0*o|t17;.BGwl%n(7^c58iXPzyuJC/&5MR'_/r>i%W+gN![GFj[EmWI`Tj7bHtd]X^inDq;sH5[ek1%@hdGH@.a^O`
Ua+wPOeY(!sKNt!Q0l^$gIlE*sP_rGmir:?sD^C~xa.*aceqsu_~$.612e4c_vJ'_amCx*5vbz6Z;?LghK^aUOsT7[LjAwFz<0YjfHTjMY3ExmjhlV[O<1
1[YU3m~z1uuLS6]tx!O6uoA0:4>F;xjr0x@>>6@X[uq_@ig4HfL>xKVB1nET/'YlbPU|n6deWsD7o(d|di&mptzVX0kI1y+(dQ()^J4(^)Om+anlmIn~d!
BJKkZTj<b:1]*,AymcRT=6BhBs?FfD?6h2Q~H6OV6DPq|b.*LE4KM`^+'hOBsk8~:1TEaM<|)~Fa=`g|S%h1Ne,/iCN+ZjF<yudiinZD`Z'Uxfs&sOrVr8
8cCgo,5Wm=)u&ue8@*pUYz4$$|P+Oi`7:^=u!n9(H`?0LM(?)tfp7,24i;H]Cp*7&a!Xy3_xoM!oOd]KTYFISK/Z%Jqc:Z.KBTcKFw^>w|v)2'RNx&[7yg
W;NGnoJC?H;%yRnTU*uh/M;rpZp95(rhpZ!iT&omOzZ*ms~Y1<l[ix*?E,/d;qY1;aki:LQ~yxSeGT.R4zApU/Uuu?0Jl<A]<&+50'[0CV,4N@UGQYE*Pv
'C2'*&%(pDvAOi3m!qwoyv5zYO!7+=I5~qB@,%g!'EACkXt[>]:<:eRM7.R%!4feuqV,r92>F+KRRpsIA4)y|.A1dbL*6o=9M@WV/)6'xZW<br0J,V,6pI
OTu>pH70*'wIDt*9Aaq9%2,$R]Ab,&OMo`1<gblK*y|[PZR3LIvW+Vge0|JE71tOFr^r&b:o=^FQ^((kGw8izu>w>qnR!ME8:nagUzrv9Z*'x=xNfj]<e1
h>@iKUg<;1hDwEo%Q&t_aQ:J/JBPmkSY_sn34x(_O_9wj46YRwkSQw`^5S=;x5]$^qR+%X4;slwD.SP;c~PtS_g<ST]DsbGxE8oz@h:9=@<1)w1D<j*,vm
>b,r`<B<!?E~V;04Iu/4bp<04I&N,Kb9l??|r>p>Y|5A`<N<21BRQ$Z!qUoR|nK6EF|=SNl:zg00amOr(S<)Y<`j&6p?,Sg.UG~)a[;Yp1X[:[?0r_f.~y
]*4`wtvas($MKZDrl7T,Xy;5ylo@FUiAAnQMP@WWspOIyGj^=My0qR6[/p|SrOjp:v/4Z]mF(+|XZO'N>|Q%^3y,Euu3p2yCeKNy(Ko`('%;_8~fMIO3c2
LBJAMs|ld0F^)ID6RGEPLv_vu)$9<<wY?BQ8kfN'M0NRl34+WJ1h!5jS81L/<KU~zCRk)^9H~[KHG?Lo~nSJlj]2=NWO|Y>|b>NRw9_VbDddQ.kX]6*tkZ
;e|p7jgh6N%a3lR>jH6Tj$BaEoIVVFpr<WER<Udnnj<&n:.(fY5:OXd>p6wc;0DThx/L_'/7Z8Ry%@V<?/o^,9_L/r+O?WBDWX9!eZF&B?flzG;21)+B'p
O:8stVO6R`dD'21'e4_XT7EZPx2q?wEwjZJJ~dfvy^qjql*T&:QZ)!v)2Zq'RoFd>|6emLa@9E&g/h*FtD;^:um)jo3nE!+]5BUH@Q9UN`z%Oc?8h~r!>g
1;7:YS/Ctpfw[Gh,wzKS2B*gqpCRj&o*QnhtUBQ:k)VJWUI_*iqaCN!$6's8m(%Qfa=O5z[0$OVoTq4^fHzduAU(VsA0M?vZDCDmfd/XRuL2mQ^F~3+GMO
b<Y*5p|W6!c~H|nBh67%WD*O?2OYW>@f7O)+,]+9M;'.DMyxcH);v7(L:<c+jHS36nPTU?yJWAI=UTsg=rxB>KkA&b_+v32P_zXbvLcO]M_Bt26JpN*FJx
yRe2uGB4S2q+Mqt(H=H]+ye4~hA6tScq&Z0:s)f<0$O5,.ung$zo.9MI.Sf(.R0]7(/Mm.m,+HJ/IhDv@bp>dI8deUJ@ZO*bcgMFxYEK8&hDExLMJI..Kl
O:x?1]PL&40,ju1C('ln&?fUT?r/nAT9_3+5$obLUR;B%[t)eEquwnm[J;|MWcZ:aT+N`o!3w&7wdfb|q_TeK12|i^WeDjiM)q.FE*/*Wb@t/6)'vN@K'O
O~;Yq`EBngz|b+guOiJ89CnplhXgs0yYtZ5x'XWU<k]hpolNt*qY:_rtl+6q@jOZnO%MR&U4MF$'OluY>>,RiO2Isyq*Uao41(oeYTIdVrB^jb'Q?%4Ydy
08Iib+1/ixYhRS$[j[70ZxKF_daFQ$@9y!=6XhNPO+6?7l?lcmT(V]H[2yA5^lcuS7sXXp(*CPW1Nu3q/*rBx)`vjw2?vjQ=%>8Qyyj9~X]r4Ei8fZ,Fe.
JGfE4E^>+&MyF6Shg`A78Buur.W5ia3)o8e;D,JzwDhpNTFC?$)$XH)q?xv.2*u~M1N2+b:c<6Y/x1+v7TmQX>Je2qY`vS3(iOflq.IMsOo|:MvKwI5*ua
R1l)V&5MF0|?WI9@QX>7AD[bu7bCg0$6xxYf$ERw8<m~50(np^~IS?I`eU+an@f_nYbXXO1tVoW&EWnjX|dN!5T7tf7.??c`<9RrO+M4'32/3k*2LN(n&z
7O)Fh51.ZMNe((i(1Qp)p<1[BdVF7C)d=.;,]X>o!<bnw;;7WhFN_@(Lp8%j%/=xo0061U0/G?[4>:zLN>K[jSG8j!_Sd)L,J3SWyYFJGc`&h;D4tTUu9/
d3'ZX1a|/8G>nqS<0E:T5uOd71%UlgMGB,eL@z,,=.pEK5EZ,zV5mkNeUu.TL[c,RV~pA(/zQQsbK4K!O>$HqJ9x&*fMc$j*_a,sYoIJ3;Sl^%v'NOl0S!
Kl=MDgfw(Ar[BvVeiW&l0sDG'K9AuG[0)~1j~<E,C@2_ZCws;:*q2)e;M7[R<?6`0;![@DHZVgJaAIeO!o|4ix7k5jF*=Xkl,V,b9J]pSZzDmyJA'h_HPC
ARX~egt5XAj)fa4+FW_*Ur&_PSd_@V|3yQ<S5NJvFU1h/x8gG>(hhz@M==CmaY/;O&l]:x6SN!9pq;_'YD[JQu|GeMo!?_t,~R6oDO_3.!Q4zC>6St835`
^D@4M>K4gT|[7M4=e_E9pQZ,9XIO6@J)99==R&TwE&/Br>[g?pJI]SQV6yrAgu8Vj(z)F8@KV5P$hxSB,5vYH</nyGb4!N|GuxY2$uKpw2q=dcw$|sv[A$
F.Rh[Ac_]8]9$M<P=H;7[XG2zCl%jpqw&cmRDW5DyAo0/)^(Z%e3~fmyy*K5v_j>NuDo%>y]*q!l8$%,t;.D(CS6lwV$J.3(kUQit>;nek&VJ)_e1ms.$=
OcF$sX4yxb7Ld;<|G9^z^Vz`V'pt|<.?yP0IVWa3^o'5kW|&BdyRIu!%R//w0~XmRLd/?QhV4,YXg'QP,(h<TVqn<]V)@lOPq&*q,&eAiC^n]gJMP348T[
2dB<@ZA+uU^[Lv~|fc+!ZvV$IzvVLkU!/xxmkUOX5[E3c|ZNbrbWDAk=rX(HPd,>dy<nf2!S39FDlpbm0Hv(Nj?kUviP+/HIcBbh`F@Ceo;%vxpjkKS>7|
v0)|@a`;>&iN)AkuA+NZ;R.:z?qiA`cU$S1+z8<?J8=@UH7*+1t5','8,Ome.h~H%7qu+ijRJMoVG'N/!58TTfuOKG5YE`Kb/&6EU0ww:3ip=usO+8ApRf
^M)r`ys|~j>,WU~OM,V,Z8.O1l$AR2hzITu(y@zu~tIZx=x,usQeHW^t/1_QI2tGiBQW1|4lByxrP61j+@!?O1a'(.?+>kTMJZX(BDso?+Mwi3H:7hJ'Y+
SoVVF/(Q|Ts$),.,1LZ+[*aBp%hUa;H)g]cBz<iWADV@W8&u8R3AG5=1Ze9*Mi@)j<%Lrefn<[F1n85p?$ffZSsXn~E=/*CgI5tD6cCHbsB7Xdn!T/j`HO
]x:~X*f>*kL=^UJu>du%U%aG*Y^R&9uf:!y[_|!xs[PR8[]Le@Z&~Nz4%g3_*clF=eDz%m($2nb`LTy%y6$w(A4c7PZ(ljk1.DUKE^%!GvYFTk;_M*Pc3a
+Yf!4.<yl4IvPYz?U5o/9`51!4NA?SoG[^Q6WZ]ApGK*r;O_Qjw>^;78z@T3!siwknU4fHIbsM=I(Rt1'>r^3~>/,3J|c^h.MzJ^??xHjDp|)ueuH/gP)_
:QE@Y,r'0rbLz9$wM>_'3Ca@x>^+lOaubQ7Woulu+)<wL|dh|Yq@bF[6_;5%d2]S3MsTxCrVu!'D6SB[p~yWhkN7hB)w2nmEQbK7&cWZ2:g$o:.W@]f~bn
M05%r)0W0fyAD>0?se7E(|&!fx);[i&HRaE0s'DP`ue$QwBI9y0>]ZRnNOLv.YtT]XT[ctD3i1QZ]3Q'f|`l,u`b^8Z6riVtf3Ld)Nx4+!@.@%AAGM9fh$
6@YF)JNluH(Bzw0I)u*X=@3lm~EEpHEasKXtjAYZY6vs<Qlmp8]'8j2mC5)i<L@BPDkX^<QS$v)yof&^G&!;V0JVz`y?lnGiwVPB<4C/Zp3`92Gk>a*o;N
I0h'qv^XJz^c!AJv.<]]d4v~M8~1/j^,c|nr`V^VKfBY1RTs(M'k(HNOb!.iq**LZI)rR]*K.rdO/v?6;mR`k69h9/:Y&Y68Jg[;6@y~Ruxk+uzTU)h^AI
v8g=6ebWT@jtUX|0w5mQ1Tz[!TE;]h$jqmfF,K65W,?@f|d3XcBN&[(naaBcZ%%!|dk^]/BAGLtx_POj6wK<yzM_C$&qcKX6,|HQAwGbkjU(.='1WX?q8k
UJJEQxTg0ZTzH)*krb|W)jW~oq_wvz4k.?qr?N$8mzu6(SNExC`?P:2n'P6p`fB?u%5nN=W!_N8'1ZDOwc^shmA;dqs=$;O]mr'myq|Ee9i,zcf:V@B4Yj
2Nj>5~nNB(sdO&r&|~vv$TkUMH1DG18^l[!x>/g/epYgj<2T'Dl%U<PDO_O@!bu6N)%5YTZn%44BO0B;|CW(p|I*mHpJ>,>|J9qpdIi6/Uomz.Iwen>dD~
`7~hI;C$c0$!wB)U;>MLndH6Mei)(J(cgD*[2dGKzk4I(!fwbb5~a~WGX|8&==?+B_5@fv]NgV=1h)2',gJQpiBU4>[a)DF8+i^m.Xf3%?2&&lyRCL)u6B
(MRbhu8&/sj,JxSai&CBfdmZ[nH0ZsULeA=B.]%UaWjDAX4bH&c&%1r*WV3qjqfqHH3=30CexCZ$1pyE?[gTPM`/BL8960L|BE!CryBZI:!X?S;jqgqaA]
k/%ND'_rU=$,i~FVThcTsKz&Fr[Io5EeO9@gM00TjVsml]u>Yit'.]lY5]EkF>,FJXNsU.eVPgg60FJE;.,cwtJ,Lo7@1>8_Cb[q(CT7?[(r1k!=|KLWBl
wK~XaO!_tk8NX@z?Bvq^4DkkT&$6E@$8SvyJq!C?kXobFPN50OCY;d5[GsOW.F&R!vNN*hH'.rd`l=%^JXuaj!L%i%t5txWU)&|dO+gqReXw't.2<q3vKK
R|FM;uP>u%g71f;[`ET2|0b.+/!DiLDTx([>d<MtAbTh:j_&9sh:)P%OE^*@X4vDi~+;N*|G.nkKeL<Yq)a[D~VlVa<fhqY_M&EyhJpWYet`D?@P[|po$$
fa+X~TQP|`<w)|kmXjJi38~4D'tI(I?dI7lM68c7LxQD2`JtaqV?U?cOQ15BgQf4&./X7cYXVPM;)2$iN:PR&H]Z'h(nu+!s`Io_;xT8>s5qD8rKA$sZ_Y
qwSf`1cT+Ec,ZlUUk?w5rC2E=lLed=5'qOMWj0g^B@v?HgJ5N+2HFW9EdH@4D=VP/g+7O.ZCB`i=`Z_?_>a:X6U%HNet?iEC4GTj,<%$Y'E7@Y(~(]'1<7
u@8,SDPm3KiuOyi@p=e:UyL8Z'yhMwVklF&Re5OS=2%Z~z6+|58oO2Gt*AK7ta+=)ALq6KR(m0*f24@e'a3T/7TcO_ZZ4_'yY.@a_5Y<6$PmUBbA1ZIw>`
8*DzakU~@yHym]5_GtQEPz'zhDHx0hy*=b$omdag5xJN|VQnCP$FzXWI_OH]UP/=@1s;!%!jc<TWb)_o?*5`B@:31wN?3iH+$x)5^|hwWC<^Gpy]E:hLS'
]S.Du>tpw(.z/px$kbw,xOy>~pHis:itH6?s$aZ4]/ae2Ji`2il`lllVnO1G_j+'BPzHgjm[R)C/:|Q`2Nq%uU<?Jl5o1p'_%@R'Dhjsjvfy)Ci$/A%<v]
5;MaF)?KaoJp;D@O')tCaNVVa>'S8TlIQp%7mhAGQfi(x*o2WMZ`:?Mj`w+>cu/tyY~5m!8!dDD5`Kq&[Qr~Ujp1~u:37<)_?c1Y*Ab^UqSp~05~Lf)3kh
IBZ@tT.e1`:wTbI.Ob^'HI0(N:;3%$yDv2Tre_MhhTy,;%dde`Bn<^6?:rdI5f6Kqklm|ofrJ]t7~s<JDoO!E[)p,,jn~x/sqjrTo/kUu7HQ/?<p,R*N;n
;Rf9^B[de2u6Ev_z|.2Nz0L(Y_y|7Iqt/<uLF9SqzyC_hz$Wa4=|MK!fSseCMF[uOo,cMOV6&_RhC5W799ESvvK5=)9LI_rZD%4>4[KY2QW/v=LeT6<_x]
WR>Gqcj~n>Lj0_c:aWX'/fda%SVu:4`muYd'6JOcuISNZlRj)g%k6Z1zPV@:_cGzRfQm0IW?]UqwVivJj[Dd'u4_acjN1^sM`JR5^jS]%G+7kAOUqwCDe=
(rr@ic+k9uHP(pV|Xi!Y:;tdFUFVZ10l>(:f~IgNL=&QUVbDH.GcJRTX'|Q'x:P%P1GQT~Y'd4&L!_Hb4<)=$[!h47J[~Tf'q8O2EsCrW5]1<|D9hJi<CM
]1Ei]u>hiGD)ZFGBoy=I<6~6NS'.(Mk=e_j>jpg!7K1$E?&p|&>L$$uW,7NuYx$?(ACIQkGl7<@HbJuNM6rjC;.`^^FYybrk;39y*_g<SI*Rnww$sLZvN0
LEx_T5kh]Qv!lfBR)%84.C?dZ?a%W=F`6j<%aQY.DTQ~(Q=b/wP8?Qx:+|*zXluvoa&7'u?ZatAAGO?;Y3fs^^9v!!WaX0R8i&FP6oIr~q0RGJi9s($<sB
Q3`~3U6OFxz6+aP6*^^/[VT!SOYsk,Jl>Q&NB0l;Fj`)hO>V@r6B8%CgVnx_`&WiP09yoLtsb'z/.4QmnHv!M$lZKp.A<4QCma_V>h,r,rjoAI0Z~fYvG2
t8!!N94O9wO/p=xl9!:z?,G)o*&o+oI@s$@iwM@ORW/,*[gD]1M*b!3La<ecN|mr6~Z/4R[`AzJ>s99='7_fVtt.||:W^t=54)!L$?Wl)kKlyPU^fS=zU+
/l;>CHNd/k~cgjg[[:~N+[V]'6QR!YQ3lj^GPl4/A.4%Ixic@iwc&,.]yo.t2?B9CDZjPT1&,lSE:g9d>6mNvM^jiDwZ4<0U6/&(Ad1u]k'4Gpk<VbEoOe
&D^<<?g9[^97uh<Stav(S@l^5~mrvL]0Q[ppK_i2cQ9Z(Ap[=>~9;HjtGA6soigKv&4:95dHJ*^VLP?qc@d>_hwQ%=4*<c8)tAFRd&S8[gZ7C7hx^uA8Zy
jQm1P5[>,uN(W%fY5RtKhy/Gfeq$RS(*!ECi,!?+B@h*XH`/)Tp+8?J8TI'`+=sIo@QQw2Bn;A5_0+mo(CjA,p.A%[;LK5`G6?xmW8ib%^3AG@t>M=O&S.
w6g_|4b+!pYG3Hom[3P*XrW$wjp:N|HQ/n7cAi@82@ViH'y?xB(c>X<*l7?eWG4Ur:c9jUQ=IX/GcvirBIeDhY=s@$FmWOw`pV;JE*9fWU$V^(s(7pZ2.W
zD]6q%:?Un+Zc:zs1o]9z~Cj|YRdA=e[]c%^:_YKcTK'Az0+nBeIu4/I/N4F(6fTl%D`e;s6ml)$?>^zYQ:0'|%:ngCpkdzjQ:rFn0v7%hP~V?V;L8D,|5
.0;*[uA5Zx!z./._y4=Z|hFkY[lF~CIyEiC0wi;&5=Yl.4`G'B|aKo$_G~pt!yUTw.gS<TUa3Vcxe?vQzy(K=kz08UF,S.u<w>c/^$GYg!qn,32e+Rg&Gq
tT>?D5)l|S,Vq4l[40nXj@>aDG?4Ip2MmdV!<G)cl,.yjAV6S,VKHE.:wM,J^9=!wNPVB6NA@Bxi?O)z~3<,'>/14_nHCA0Mw;/$K'Bw(*zA>V5Hb+vQ;2
[h%db8%ZXI+>A*qS'%BQXrg)ZBct[?.?X:_e*3+/yzrwWg?|.0k5HSMxgBVgdLdf=rTPs'[v>.NY:t0f!2[bmVchSJw!*~M`mx(PmkelZ5C|,ln,h_<Jca
zCd|`$(1RmcM]fm.Q<udF!aIr<1u3i09orR<TN%LfU(Wg/8_i`D5t[_Q,m2,(1&9+ySN!yy^/RNR)]u9aX!>@$XtH4^4H?^6<%GTeHPA@daR7yu^94OKLo
ejegj@<4y|,SQR`9)5u?;dA+D^|,>dEN3'sXmimk<:i)F<'<m*)6Igjef2hU%j%BCN~Y&^HbDt_')8@~w)!,E28`pv,M:(@ol^OE9LR:Xm7nrFZEGJ_,Ar
YAo*AYHcx&MhzI!3TNSc,vFAf8~5pc*Sk1sEk/sD5&0|!Qff0`WUYhrt>u+EMuMg!>zTGO$`yh;B%4U&Bn(HjBD[N|NPtmqp>tfsB'BOxW6HeXqR)b3ezv
@^GaRwT@Bh:[ETx]5tW|/6@!/me.l@x+E~/XNrDH0ZvKrnSK&(bm&iqE7X3_^@(/Oqsr.=>wPzJCteBp$rmC4b/p~~m(dRz=U1wC,=]K&n>H&F)2m;:8I/
J*,@K%,:Mue+Ae&TJjGV'^Tmk[xo4(Z)p<T_+R59`v_r@7f6x<<_G*Qt^[*4MGthA7/T4QJ6sDUJyCouiUcoK|vR;=ft*x>y<aqd^$Vj2egS1GixDZr+ag
e?g4uo>n58h9B:Jhi_MaSz%Spr_Oks422eq,:[xkTpdON<tuiG^^B(rM_@'@[J>C9d?bFGgo/vsYeeUw|h6f:aq%|E&26.Q=R=8ScJo;[@|v%[VWEVO/1N
BvA0:;tOXql`>2tOZ($Fqyoe]UKK$B1sYcJ'ZcVaUoqC4&=H57@2e[1=73790hD5P/UR(!Qi,OE590vsIlpntS!j:K[16EKy*tB'5x!gE?+WR=stGD[@FE
*M]pT(_1SH|BBM>bIX~=M31PMnSp(p7aE<P>?`D,?(lqgHfQ@d3yJGOAEoDI=iyh<`Yqpx+J<WdVR6aauZ0?7(USF3C<3sNf2S<'J[,PwuH7d9nLh8bC.0
*krmfa&7aqh>~[5xDPZadV,)6R1w?&_>/tTKq0ruCN|[K7XJ]`$alEzvi;7AMj'|BlnZE2u(Y3^hDo(n.k6S]H*6*Viv=S5dsjfYy$sOP97Jkuwv$Fw]l,
ak0>%C^!1m6d~gZ!f;bTncg0WtXO'rEC>@`NS~Ne[*tM!`cUM'x*2gq!6Y@!PkLjz|OwPkWd!@]MPOp!&QeRmq]n]3.@Q%is6Xh@q>;0omppZ5$(6bY/3|
:_cC818spPPu;>x2.D5,z$>CzriwS9,_a(9*&>/TX46mH'|_4(1W6|E([AQ]3q1FcTd!ZXr'R$2Lcktnamv&y+gmcntw<I<|hQAYb@DDp,V;Wr?kW7<U;=
;$8[=w]n.rm]KX,NSrq%GT>DXUq4iCJW=qOkq:$c+bdT8Dg<V=Nv8/PpdZ]N8twW4F&I!yK5;5&5WuFwZa(Ef[x`*((Lt^sxQ(O]vyJ5ODX@eW%fE;HHcH
elqHtDsxI54FBQ/e_bK+eoQFtHT,$NC(O5jh6b'~%$H')VEl|~>fpa`u8!@*Y'hdbkXP6!%[)LpGvmE/MIpp8dmp8(hRP!YI)atJ;OzMyX|<uLFFU.s[p5
_ab:vk+;=|)hwr=*k^EO|>(v?AFDR3H'Lvpz,|aI6~PKCH?9Ss+U@(+e<>YQ*9)2hI~t.h@S5<WA|?Q.`>jWmy,crox(Wn&St+V4Txgh+6G3eHOoUkgw>]
ongG7ZI*~l,kysCl0WyC'WR?bwx$hj|[D[?33*DExy0xxKdY^ChY3%/xDl>uX>,>/b8u6b$1L7r.+`/c%.s554G.dG!6QXS7JX@ViX08djaSQ/Q%O,N,OL
I9pvZd.YNET>RS+iu`YAlz].[p^3Ao2QE!TC?QRtqYRyrnt662vzeln`/KoLHI^P?^rlkvTzIbE!fxuPTBi7N^n^UIEYe$C16]*%<D0TJ@YR2)@?_P,lRR
E7uro,y_2.DEZ?.72%RJp,rifc@XDm;2~TVa'Ae$,R!aBZ;u*wSPk@rBHbkWsi_DP(Op1P6(tU=bWVyi2B8)@S!u_AoW0u<i[fo3Hw0eNclooagV7.sJ@K
/]Nw5@,WMSW(,?t?QyuQW+?fghk2+rOPq<%<`q!gT3YUl?F&]o$*]SS7a39eO^+SkXFaFftrDm;B`DV'2,/8=2oOk]t.~5vQcBFUN?BLhG?7.'11V@md(o
I?1:q@H%DKi5QFQ:((r1.8xTNe4aw^MBHn4Bmj_C,h@T5y1^96Y;`d'gaLr)[XlZL*E8m$V8Qd`tir47MR=t@=b:|Kep;^/3/$LNuIKN2S>;==@VvKO3@X
QtvBiULi@8zR:rJt70OPL3N'.BK<<[vgO,]Lb5WH<L:(KiRUOp+k;k`$7CZyTjIA>waOK(Ebk(@+<LB*+dw@&Ck7mr%IA0Kq*Y191'=18pg?4C[v@OO~<%
24+Ws*bsv'%[Rl:yxn:HzLg/0[QN@iJdRV85[O1Rw$t8.e`DVXWHyaxh|YT$WI>=Y@y|Kxt~2pcOe`;8v~"

end InlineMarkup
